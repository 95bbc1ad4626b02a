import Tracey.PerfCapabilities
import Tracey.Separated

/-!
# The command lines for perf

`perf_driver.cpp`, and the two places of the main program that read or change a
command line: the list of process ids it takes apart, and the path of the
recording it replaces. An argument vector is a list of texts. The one question
put to the file system, whether the input of `perf script` is a directory, is an
argument.
-/

namespace Tracey

open Numerals

/-- What to record: the program itself, the kernel, or both. -/
inductive TraceScope where
  | userspace
  | kernel
  | both
deriving DecidableEq, Repr

/-- Timer resolution for Intel PT. A higher one gives more precise times and
more data. -/
inductive TimerResolution where
  | low
  | normal
  | high
deriving DecidableEq, Repr

/-- Configuration of a recording; a snapshot size of 0 leaves it to perf.
Without sampling it is a recording with Intel PT. -/
structure PerfConfig where
  multiThread : Bool := false
  fullExecution : Bool := false
  sampling : Bool := false
  snapshotSizePages : UInt32 := 0
  traceScope : TraceScope := .userspace
  timerResolution : TimerResolution := .normal
  workingDirectory : Text := []
deriving DecidableEq, Repr

namespace PerfDriver

/-- The modifier of an event for the scope it is recorded in. It is appended to
the event without a separator. -/
def scopeSelector : TraceScope → Text
  | .userspace => text "u"
  | .kernel => text "k"
  | .both => text "uk"

/-- What Intel PT is configured with for a resolution; the lowest one leaves it
to perf. -/
def timerConfig : TimerResolution → Text
  | .low => []
  | .normal => text "cyc=1,cyc_thresh=1,mtc_period=0"
  | .high => text "cyc=1,cyc_thresh=1,mtc_period=0,noretcomp=1"

/-- The event to record, with its configuration and its scope. The configuration
of the timer stands between slashes; without one both slashes stay. -/
def eventArg (config : PerfConfig) : Text :=
  let sel := scopeSelector config.traceScope
  if config.sampling then text "--event=cycles/freq=10000/" ++ sel
  else
    let tc := timerConfig config.timerResolution
    let event := text "--event=intel_pt/"
    let event := if tc ≠ [] then event ++ (tc ++ text "/") else event ++ text "/"
    event ++ sel

/-- Snapshot control. A full execution and samples need no snapshot, since
everything is recorded. -/
def snapshotArgs (config : PerfConfig) (caps : PerfCapabilities) : List Text :=
  if !config.fullExecution && !config.sampling then
    if caps.snapshotOnExit then [text "--snapshot=e"] else [text "--snapshot"]
  else []

/-- Snapshot size. Samples have no use for it. -/
def sizeArgs (config : PerfConfig) : List Text :=
  if config.snapshotSizePages > 0 ∧ config.sampling = false then
    [text "-m," ++ decimal config.snapshotSizePages.toNat]
  else []

/-- The kernel's own image is copied if the kernel is traced, and if perf can do
so. -/
def kcoreArgs (config : PerfConfig) (caps : PerfCapabilities) : List Text :=
  if config.traceScope ≠ .userspace ∧ caps.kcore = true ∧ config.sampling = false then
    [text "--kcore"]
  else []

/-- The front of the command line that every recording has in common: where to
record, what, and how. -/
def buildCommonRecordArgs (config : PerfConfig) (caps : PerfCapabilities) : List Text :=
  let args := [text "perf", text "record"]
  let dataFile := config.workingDirectory ++ text "/perf.data"
  let args := args ++ [text "-o"] ++ [dataFile] ++ [text "--timestamp"]
  let args := args ++ [eventArg config]
  args ++ snapshotArgs config caps ++ sizeArgs config ++ kcoreArgs config caps

/-- The ids with commas between them. Without ids it is empty. -/
def pidList : List Text → Text
  | [] => []
  | first :: rest => rest.foldl (fun list pid => list ++ text "," ++ pid) first

/-- The command line that attaches perf to processes. Without ids it would
record nothing in particular; the callers make sure that there is one. -/
def buildPerfRecordArgs (config : PerfConfig) (caps : PerfCapabilities) (pids : List Text) :
    List Text :=
  let args := buildCommonRecordArgs config caps
  if pids ≠ [] then
    let args := if config.multiThread then args ++ [text "-p"]
      else args ++ [text "--per-thread"] ++ [text "-t"]
    args ++ [pidList pids]
  else args

/-- The command line that has perf launch a program. The program's own arguments
come last and are not looked at. -/
def buildPerfRunArgs (config : PerfConfig) (caps : PerfCapabilities) (program : Text)
    (programArgs : List Text) : List Text :=
  buildCommonRecordArgs config caps ++ [text "--"] ++ [program] ++ programArgs

/-- The command line for perf script. It names the file to read and the columns
to print, which are those that the parser knows. The path of a directory stands
for the file in it. -/
def buildPerfScriptArgs (config : PerfConfig) (workingDirectory : Text) (isDirectory : Bool) :
    List Text :=
  let args := [text "perf", text "script"] ++ [text "-i"]
  let inputPath :=
    if isDirectory then workingDirectory ++ text "/perf.data" else workingDirectory
  let args := args ++ [inputPath] ++ [text "--ns"]
  if !config.sampling then
    args ++ [text "--itrace=bep"] ++ [text "-F"] ++
      [text "pid,tid,time,flags,ip,addr,sym,symoff,synth,dso,event,period"]
  else args ++ [text "-F"] ++ [text "pid,tid,time,ip,sym,symoff,dso,event,period"]

/-- The loop of `parse_pids`. What has been read since the last comma is at
hand. -/
def parsePidsLoop (pids : List Text) (current : Text) : Text → List Text
  | [] => if current ≠ [] then pids ++ [current] else pids
  | c :: rest =>
    if c = byte ',' then
      if current ≠ [] then parsePidsLoop (pids ++ [current]) [] rest
      else parsePidsLoop pids current rest
    else parsePidsLoop pids (current ++ [c]) rest

/-- Take a list of process ids apart. They are taken as texts; perf will say if
one is no number. -/
def parsePids (pidStr : Text) : List Text := parsePidsLoop [] [] pidStr

/-- Put another path behind the first `-o` that has something behind it. What is
replaced is one argument, however it looks. -/
def overrideOutput (path : Text) : List Text → List Text
  | first :: second :: rest =>
    if first = text "-o" then first :: path :: rest
    else first :: overrideOutput path (second :: rest)
  | rest => rest

/-! Process ids. -/

/-- The loop collects the fields between the commas and leaves out empty ones.
Induct over what is left of the text. -/
theorem parsePidsLoop_fields (pids : List Text) (current rest : Text)
    (plain : byte ',' ∉ current) :
    parsePidsLoop pids current rest = pids ++ Separated.fields (byte ',') (current ++ rest) := by
  induction rest generalizing pids current with
  | nil =>
    rw [parsePidsLoop, List.append_nil, Separated.fields, List.splitOn_eq_singleton plain]
    by_cases nonempty : current = []
    · simp [nonempty]
    · simp [nonempty]
  | cons c rest inductionHypothesis =>
    rw [parsePidsLoop]
    split
    · next comma =>
      have cut : Separated.fields (byte ',') (current ++ c :: rest) =
          (if current ≠ [] then [current] else []) ++ Separated.fields (byte ',') rest := by
        rw [comma, Separated.fields, List.splitOn_append_cons_self_of_not_mem plain,
          Separated.fields, List.filter_cons]
        by_cases nonempty : current = []
        · simp [nonempty]
        · simp [nonempty]
      split
      · next nonempty =>
        rw [inductionHypothesis _ [] List.not_mem_nil, cut, if_pos nonempty, List.append_assoc,
          List.nil_append]
      · next empty =>
        rw [inductionHypothesis _ current plain, cut, if_neg empty,
          not_not.mp empty, List.nil_append, List.nil_append]
    · next other =>
      have plain' : byte ',' ∉ current ++ [c] := by
        rw [List.mem_append, List.mem_singleton, not_or]
        exact ⟨plain, Ne.symm other⟩
      rw [inductionHypothesis pids _ plain', List.append_assoc, List.singleton_append]

/-- The ids are the pieces between commas that are not empty. Commas at the ends
or in a row make no difference. -/
theorem parsePids_fields (pidStr : Text) :
    parsePids pidStr = Separated.fields (byte ',') pidStr :=
  parsePidsLoop_fields [] [] pidStr List.not_mem_nil

/-- The ids of a list are joined by commas. This is what the loop over the ids
puts together. -/
theorem pidList_joined (pids : List Text) : pidList pids = (text ",").intercalate pids := by
  have folded : ∀ (first : Text) (rest : List Text),
      rest.foldl (fun list pid => list ++ text "," ++ pid) first =
        first ++ rest.flatMap (fun pid => text "," ++ pid) := by
    intro first rest
    induction rest generalizing first with
    | nil => simp
    | cons pid rest inductionHypothesis =>
      rw [List.foldl_cons, inductionHypothesis, List.flatMap_cons, ← List.append_assoc,
        ← List.append_assoc]
  have joined : ∀ (first : Text) (rest : List Text),
      (text ",").intercalate (first :: rest) =
        first ++ rest.flatMap (fun pid => text "," ++ pid) := by
    intro first rest
    induction rest generalizing first with
    | nil => simp
    | cons pid rest inductionHypothesis =>
      rw [List.intercalate_cons_cons, inductionHypothesis, List.flatMap_cons]
      simp only [List.append_assoc]
  cases pids with
  | nil => rfl
  | cons first rest => rw [pidList, folded, joined]

/-- A list of ids is read back as the ids, and what is read from any text is a
list of ids that are not empty and hold no comma. So the last argument that
attaches perf to the processes of an option names exactly these processes,
whatever commas the option has to spare. -/
theorem pids_attached (config : PerfConfig) (caps : PerfCapabilities) (pidStr : Text) :
    (∀ pid ∈ parsePids pidStr, pid ≠ [] ∧ byte ',' ∉ pid) ∧
      (∀ pids : List Text, (∀ pid ∈ pids, pid ≠ [] ∧ byte ',' ∉ pid) →
        parsePids (pidList pids) = pids) ∧
      (parsePids pidStr ≠ [] → ∃ list, parsePids list = parsePids pidStr ∧
        buildPerfRecordArgs config caps (parsePids pidStr) =
          buildCommonRecordArgs config caps ++
            ((if config.multiThread then [text "-p"] else [text "--per-thread", text "-t"]) ++
              [list])) := by
  have plain : ∀ pid ∈ parsePids pidStr, pid ≠ [] ∧ byte ',' ∉ pid := by
    rw [parsePids_fields]
    exact Separated.fields_plain pidStr
  have read : ∀ pids : List Text, (∀ pid ∈ pids, pid ≠ [] ∧ byte ',' ∉ pid) →
      parsePids (pidList pids) = pids := by
    intro pids each
    rw [parsePids_fields, pidList_joined]
    exact Separated.fields_joined each
  refine ⟨plain, read, ?_⟩
  intro nonempty
  refine ⟨pidList (parsePids pidStr), read _ plain, ?_⟩
  rw [buildPerfRecordArgs, if_pos nonempty]
  split
  · rw [List.append_assoc]
  · simp only [List.append_assoc]
    rfl

/-! The command line of the recorder. -/

end PerfDriver

end Tracey
