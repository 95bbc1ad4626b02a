import Tracey.DecodeSession

/-!
# The main program

`run_run`, `run_attach` and `run_decode` of the main program, and
`BackgroundProcess`, on which the recording rests. A run of the program is the
list of what it does to the rest of the system. What the system contributes is
an argument: paths, capabilities, how perf record ends, and how long attaching
lasts before the user interrupts it or perf ends by itself.

What is recorded is what is decoded, under the same mode and from the same path;
perf is reaped once; and the signals that stop it are those that its own
arguments ask for.
-/

namespace Tracey

open Numerals PerfDriver

/-- The signals that are sent to perf: two that ask for a snapshot, and one that
ends it. -/
inductive Signal where
  | sigint
  | sigusr2
  | sigterm
deriving DecidableEq, Repr

/-- What the program does to the rest of the system. A run is the list of its
actions, in their order. -/
inductive Action where
  | report (message : Text)
  | createDirectories (path : Text)
  | spawn (args : List Text)
  | sleep (milliseconds : Nat)
  | kill (signal : Signal)
  | reap
  | decode (level : Level) (workingDir output : Text) (sampling : Bool)
      (filterConfig : TraceFilter.Config)
  | serve (output : Text) (port : UInt16)
deriving DecidableEq, Repr

/-- A child that is not waited for at once: whether it may still be waited for.
Once it has been, its number may belong to another process. -/
structure BackgroundProcess where
  known : Bool := true
deriving DecidableEq, Repr

namespace BackgroundProcess

/-- The exit code, or the negative number of the signal. A child that a signal
ends gives a number below 0, not always -1. -/
def exitCode : ExitStatus → Int
  | .exited code => code.toNat
  | .signaled signal => -signal

/-- Send a signal to the child, unless it has been waited for: its number may
belong to another process by then. -/
def sendSignal (p : BackgroundProcess) (signal : Signal) : List Action :=
  if p.known then [.kill signal] else []

/-- Wait for the child, which ends like this. A child that has been waited for
gives -1. -/
def wait (p : BackgroundProcess) (status : ExitStatus) : BackgroundProcess × Int × List Action :=
  if p.known then (⟨false⟩, exitCode status, [.reap]) else (p, -1, [])

/-- Ask whether the child has ended. If it has, it has been waited for with
this. -/
def tryWait (p : BackgroundProcess) (ended : Option ExitStatus) :
    BackgroundProcess × Option Int × List Action :=
  if p.known then
    match ended with
    | none => (p, none, [])
    | some status => (⟨false⟩, some (exitCode status), [.reap])
  else (p, some (-1), [])

end BackgroundProcess

/-- The options of a command, with their defaults. The commands share most of
them, and each one reads only its own. -/
structure Options where
  verbose : Bool := false
  quiet : Bool := false
  multiThread : Bool := false
  fullExecution : Bool := false
  sampling : Bool := false
  output : Text := text "trace.fxt"
  serve : Bool := false
  servePort : Int := 8080
  snapshotSize : Int := 0
  traceScope : Text := text "userspace"
  timerResolution : Text := text "normal"
  startSymbol : Text := []
  endSymbol : Text := []
  multiSlice : Bool := false
  noDecode : Bool := false
  program : Text := []
  args : List Text := []
  pid : Text := []
  workingDirectory : Text := []
deriving DecidableEq, Repr

/-- What the system contributes to a run: what can be found out about it, its
paths, and the number of the program's own process. -/
structure System where
  facts : SystemFacts
  absolute : Text → Text
  parentPath : Text → Text
  tempDirectory : Text
  pid : Nat

/-- Why the loop of `run_attach` ends, after some turns in which nothing
happens. -/
inductive Watch where
  | interrupted
  | ended (status : ExitStatus)
deriving DecidableEq, Repr

namespace MainProgram

/-- The scope that an option names; any other word is the scope of user space. -/
def parseTraceScope (s : Text) : TraceScope :=
  if s = text "kernel" then .kernel else if s = text "both" then .both else .userspace

/-- The resolution that an option names; any other word is the normal one. -/
def parseTimerResolution (s : Text) : TimerResolution :=
  if s = text "low" then .low else if s = text "high" then .high else .normal

/-- The level that `setup_logging` sets. Quiet wins if both are asked for. -/
def setupLogging (sub : Options) : Level :=
  if sub.quiet then .quiet else if sub.verbose then .verbose else .normal

/-- The filter that the options ask for. An empty marker is none. -/
def buildFilterConfig (sub : Options) : TraceFilter.Config where
  startSymbol := sub.startSymbol
  endSymbol := sub.endSymbol
  multiSlice := sub.multiSlice

/-- The recording that the options ask for. Its directory is set later. The size
is taken modulo 2 to the 32nd power. -/
def buildConfigFromSub (sub : Options) : PerfConfig where
  multiThread := sub.multiThread
  fullExecution := sub.fullExecution
  sampling := sub.sampling
  snapshotSizePages := UInt32.ofInt sub.snapshotSize
  traceScope := parseTraceScope sub.traceScope
  timerResolution := parseTimerResolution sub.timerResolution

/-- Serve the output if the options ask for it. The port is taken modulo 65536. -/
def maybeServe (sub : Options) (output : Text) : List Action :=
  if sub.serve then [.serve output (UInt16.ofInt sub.servePort)] else []

/-- A path below a directory. A separator is put in between where there is none. -/
def inDirectory (directory name : Text) : Text :=
  if directory = [] ∨ directory.getLast? = some (byte '/') then directory ++ name
  else directory ++ text "/" ++ name

/-- Where the output goes; without decoding it is the recording. The default
name is exchanged for that of a recording then. -/
def outputPath (system : System) (sub : Options) : Text :=
  let outputVal :=
    if sub.noDecode = true ∧ sub.output = text "trace.fxt" then text "perf.data" else sub.output
  system.absolute outputVal

/-- The configuration, with sampling where there is no Intel PT, and the warning
about it. -/
def fallBack (config : PerfConfig) (caps : PerfCapabilities) : PerfConfig × List Action :=
  if !config.sampling && !caps.hasIntelPt then
    ({ config with sampling := true },
      [.report (text "warning: Intel PT not available, falling back to sampling mode\n")])
  else (config, [])

/-- The directory of the recording. A recording that is decoded at once goes to
a directory of its own, named after the process. -/
def workDir (system : System) (sub : Options) : Text :=
  if sub.noDecode then system.parentPath (system.absolute (outputPath system sub))
  else inDirectory system.tempDirectory (text "tracey_mctraceface_" ++ decimal system.pid)

/-- Steps 1 and 2 of a recording: the mode and the directory. Whether there is
Intel PT decides the mode. -/
def setUp (system : System) (sub : Options) : PerfConfig × List Action :=
  let (config, warning) := fallBack (buildConfigFromSub sub) (detectCapabilities system.facts)
  ({ config with workingDirectory := workDir system sub },
    warning ++ [.createDirectories (workDir system sub)])

/-- The command line, with the path of the output if that is the recording.
Otherwise perf records to its own directory. -/
def recordArgs (system : System) (sub : Options) (args : List Text) : List Text :=
  if sub.noDecode then overrideOutput (system.absolute (outputPath system sub)) args else args

/-- Decode what was recorded, or say where it is. The message about a saved
recording is printed at every level. -/
def decodeOrSave (system : System) (sub : Options) (config : PerfConfig) : List Action :=
  if sub.noDecode then
    [.report (text "Saved to: " ++ system.absolute (outputPath system sub) ++ text "\n")]
  else
    (Log.info (setupLogging sub) (text "Decoding trace ...")).map .report ++
      [.decode (setupLogging sub) (workDir system sub) (outputPath system sub) config.sampling
        (buildFilterConfig sub)] ++
      maybeServe sub (outputPath system sub)

/-- Run a program under perf, and decode or save what was recorded. What happens
first comes first: the directory, perf itself, its end, and then the recording.
The result is 0 however perf has ended. -/
def runRun (system : System) (sub : Options) (status : ExitStatus) : List Action × Int :=
  let caps := detectCapabilities system.facts
  let (config, prepared) := setUp system sub
  let args := recordArgs system sub (buildPerfRunArgs config caps sub.program sub.args)
  let level := setupLogging sub
  let (_, code, reaped) := ({} : BackgroundProcess).wait status
  (prepared ++
      (Log.debug level (shownCommand (text "perf record command:") args)).map .report ++
      (Log.info level (text "Recording " ++ sub.program ++ text " ...")).map .report ++
      [.spawn args] ++ reaped ++
      [.report (text "perf record exited with code " ++ signed code ++ text "\n")] ++
      decodeOrSave system sub config,
    0)

/-- The loop that waits for an interrupt and looks after perf. Each turn takes a
tenth of a second. It ends with the interrupt, or when perf is seen to have
ended. -/
def watchLoop (p : BackgroundProcess) (watch : Watch) : Nat → BackgroundProcess × List Action
  | 0 =>
    match watch with
    | .interrupted => (p, [])
    | .ended status =>
      match p.tryWait (some status) with
      | (p, some code, reaped) =>
        (p, reaped ++ [.report (text "perf record exited unexpectedly (code " ++ signed code ++
          text ")\n")])
      | (p, none, reaped) => (p, reaped)
  | turns + 1 =>
    match p.tryWait none with
    | (p, some code, reaped) =>
      (p, reaped ++ [.report (text "perf record exited unexpectedly (code " ++ signed code ++
        text ")\n")])
    | (p, none, reaped) =>
      let (p, actions) := watchLoop p watch turns
      (p, reaped ++ .sleep 100 :: actions)

/-- Have perf take its snapshot, and stop it. The pause leaves it time for the
snapshot; nothing is sent to a child that has been waited for. -/
def stopActions (p : BackgroundProcess) (config : PerfConfig) (caps : PerfCapabilities) :
    List Action :=
  (if !config.fullExecution && !config.sampling then
    (if caps.snapshotOnExit then p.sendSignal .sigint else p.sendSignal .sigusr2) ++ [.sleep 200]
  else []) ++ p.sendSignal .sigterm

/-- Attach perf to processes until the user interrupts or perf ends by itself,
after so many turns of the loop. Without a process id nothing is done but to say
so. -/
def runAttach (system : System) (sub : Options) (turns : Nat) (watch : Watch)
    (status : ExitStatus) : List Action × Int :=
  let pids := parsePids sub.pid
  if pids = [] then ([.report (text "error: no PIDs specified\n")], 1)
  else
    let caps := detectCapabilities system.facts
    let (config, prepared) := setUp system sub
    let args := recordArgs system sub (buildPerfRecordArgs config caps pids)
    let level := setupLogging sub
    let (p, watched) := watchLoop {} watch turns
    let (_, _, reaped) := p.wait status
    (prepared ++
        (Log.debug level (shownCommand (text "perf record command:") args)).map .report ++
        (Log.info level (text "Attaching to PID(s) " ++ sub.pid ++ text " ...")).map .report ++
        [.spawn args, .sleep 500] ++
        (Log.info level (text "Recording. Press Ctrl+C to stop.")).map .report ++ watched ++
        (Log.info level (text "Stopping recording ...")).map .report ++
        stopActions p config caps ++ reaped ++ decodeOrSave system sub config,
      0)

/-- Decode an earlier recording, which is the path that the options name. Its
own output goes where the option says. -/
def runDecode (system : System) (sub : Options) : List Action × Int :=
  let output := system.absolute sub.output
  let level := setupLogging sub
  ((Log.info level (text "Decoding " ++ sub.workingDirectory ++ text " -> " ++ output)).map .report ++
      [.decode level sub.workingDirectory output sub.sampling (buildFilterConfig sub)] ++
      maybeServe sub output,
    0)

/-! What happens to perf, and to the trace. -/

/-- Whether an action is more than a message, a pause or a directory. A message
is printed, but changes nothing. -/
def essential : Action → Bool
  | .report _ | .createDirectories _ | .sleep _ => false
  | _ => true

/-- What asks perf for its snapshot, as its arguments have announced it. The
option is the one perf has been started with. -/
def requestFor (option : Text) : Signal := if option = text "--snapshot=e" then .sigint else .sigusr2

/-- What ends a recording: a request for the snapshot, if there is to be one,
and then for the end of perf. -/
def requests (config : PerfConfig) (caps : PerfCapabilities) : List Action :=
  ((snapshotArgs config caps).map requestFor ++ [Signal.sigterm]).map .kill

/-- What becomes of a recording. A recording that is saved is left as it is. -/
def outcome (system : System) (sub : Options) (config : PerfConfig) : List Action :=
  if sub.noDecode then []
  else
    .decode (setupLogging sub) (workDir system sub) (outputPath system sub) config.sampling
      (buildFilterConfig sub) :: maybeServe sub (outputPath system sub)

/-- Messages are not essential. -/
@[simp] theorem reports_essential (messages : List Text) :
    (messages.map Action.report).filter essential = [] :=
  List.filter_eq_nil_iff.mpr (by simp [essential])

/-- Falling back at most reports. There is one message or none. -/
theorem fallBack_reports (config : PerfConfig) (caps : PerfCapabilities) :
    ∃ messages : List Text, (fallBack config caps).2 = messages.map .report := by
  unfold fallBack
  split
  · exact ⟨[_], rfl⟩
  · exact ⟨[], rfl⟩

/-- Setting up is not essential: it may print a warning, and it makes a
directory. -/
@[simp] theorem setUp_essential (system : System) (sub : Options) :
    (setUp system sub).2.filter essential = [] := by
  obtain ⟨messages, warned⟩ :=
    fallBack_reports (buildConfigFromSub sub) (detectCapabilities system.facts)
  have prepared : (setUp system sub).2 =
      messages.map .report ++ [.createDirectories (workDir system sub)] := by
    rw [← warned]
    rfl
  rw [prepared, List.filter_append, reports_essential]
  rfl

/-- Serving is essential. The server is started last. -/
theorem maybeServe_essential (sub : Options) (output : Text) :
    (maybeServe sub output).filter essential = maybeServe sub output := by
  unfold maybeServe
  split
  · rfl
  · rfl

/-- What becomes of a recording is its outcome, apart from messages. There is at
most one trace in it. -/
@[simp] theorem decodeOrSave_essential (system : System) (sub : Options) (config : PerfConfig) :
    (decodeOrSave system sub config).filter essential = outcome system sub config := by
  unfold decodeOrSave outcome
  split
  · rfl
  · rw [List.filter_append, List.filter_append, reports_essential, maybeServe_essential]
    rfl

/-- The loop leaves perf known until it has ended, and then it has been reaped.
It is reaped once, in the turn that sees its end. -/
theorem watchLoop_essential (watch : Watch) (turns : Nat) :
    (watchLoop {} watch turns).1 = ⟨watch = .interrupted⟩ ∧
      (watchLoop {} watch turns).2.filter essential =
        (if watch = .interrupted then [] else [.reap]) := by
  induction turns with
  | zero =>
    cases watch with
    | interrupted => exact ⟨rfl, rfl⟩
    | ended status => exact ⟨rfl, rfl⟩
  | succ turns inductionHypothesis =>
    obtain ⟨known, reaped⟩ := inductionHypothesis
    have turn : watchLoop {} watch (turns + 1) =
        ((watchLoop {} watch turns).1, .sleep 100 :: (watchLoop {} watch turns).2) := rfl
    rw [turn]
    exact ⟨known, reaped⟩

/-- Perf is sent what its own arguments ask for, and the request to end. The
signal for the snapshot is the one that its arguments have set up. -/
theorem stopActions_essential (p : BackgroundProcess) (config : PerfConfig)
    (caps : PerfCapabilities) :
    (stopActions p config caps).filter essential =
      (if p.known then requests config caps else []) := by
  have announced : requestFor (text "--snapshot=e") = .sigint := by decide
  have awaited : requestFor (text "--snapshot") = .sigusr2 := by decide
  obtain ⟨known⟩ := p
  unfold stopActions requests snapshotArgs
  cases !config.fullExecution && !config.sampling with
  | false => cases known <;> rfl
  | true =>
    cases caps.snapshotOnExit with
    | false =>
      simp only [if_true, Bool.false_eq_true, if_false, List.map_cons, List.map_nil, awaited]
      cases known <;> rfl
    | true =>
      simp only [if_true, List.map_cons, List.map_nil, announced]
      cases known <;> rfl

/-- Waiting reaps a child that has not been waited for, and only such a child.
So a child is never reaped twice. -/
theorem wait_essential (p : BackgroundProcess) (status : ExitStatus) :
    (p.wait status).2.2.filter essential = (if p.known then [.reap] else []) := by
  obtain ⟨known⟩ := p
  cases known
  · rfl
  · rfl

/-- What happens while a program is run. Perf is reaped before the recording is
looked at. -/
theorem runRun_essential (system : System) (sub : Options) (status : ExitStatus) :
    (runRun system sub status).1.filter essential =
      [.spawn (recordArgs system sub (buildPerfRunArgs (setUp system sub).1
        (detectCapabilities system.facts) sub.program sub.args)), .reap] ++
        outcome system sub (setUp system sub).1 := by
  simp only [runRun, List.filter_append, setUp_essential, reports_essential,
    decodeOrSave_essential, List.nil_append]
  rfl

/-- What happens while perf is attached to processes. Without an id nothing is
started. -/
theorem runAttach_essential (system : System) (sub : Options) (turns : Nat) (watch : Watch)
    (status : ExitStatus) :
    (runAttach system sub turns watch status).1.filter essential =
      if parsePids sub.pid = [] then []
      else
        .spawn (recordArgs system sub (buildPerfRecordArgs (setUp system sub).1
          (detectCapabilities system.facts) (parsePids sub.pid))) ::
          ((if watch = .interrupted then
            requests (setUp system sub).1 (detectCapabilities system.facts) else []) ++ [.reap] ++
            outcome system sub (setUp system sub).1) := by
  by_cases unnamed : parsePids sub.pid = []
  · simp only [runAttach, unnamed, if_true]
    rfl
  · obtain ⟨known, reaped⟩ := watchLoop_essential watch turns
    have stopped := stopActions_essential (watchLoop {} watch turns).1 (setUp system sub).1
      (detectCapabilities system.facts)
    have waited := wait_essential (watchLoop {} watch turns).1 status
    rw [known] at stopped waited
    simp only [runAttach, unnamed, if_false, List.filter_append, setUp_essential, reports_essential,
      decodeOrSave_essential, reaped, known, List.nil_append]
    rw [stopped, waited]
    cases watch with
    | interrupted => rfl
    | ended status => rfl

/-- What happens while an earlier recording is decoded. No perf is started or
stopped. -/
theorem runDecode_essential (system : System) (sub : Options) :
    (runDecode system sub).1.filter essential =
      .decode (setupLogging sub) sub.workingDirectory (system.absolute sub.output) sub.sampling
        (buildFilterConfig sub) :: maybeServe sub (system.absolute sub.output) := by
  simp only [runDecode, List.filter_append, reports_essential, maybeServe_essential,
    List.nil_append]
  rfl

/-- Whatever the user and perf do, perf is started once, with these arguments,
and reaped once, and only then is the recording decoded, if it is to be. Before
perf is reaped, attaching sends it nothing if it has ended by itself, and
otherwise the signal that its own arguments name for a snapshot, and then the
request to end; running a program sends it nothing. Without a process to attach
to, nothing happens. Decoding alone starts no perf record. -/
theorem recording_disciplined (system : System) (sub : Options) (turns : Nat) (watch : Watch)
    (status : ExitStatus) :
    let config := (setUp system sub).1
    let caps := detectCapabilities system.facts
    (runRun system sub status).1.filter essential =
        .spawn (recordArgs system sub (buildPerfRunArgs config caps sub.program sub.args)) ::
          .reap :: outcome system sub config ∧
      (runAttach system sub turns watch status).1.filter essential =
        (if parsePids sub.pid = [] then []
        else
          .spawn (recordArgs system sub (buildPerfRecordArgs config caps (parsePids sub.pid))) ::
            ((if watch = .interrupted then requests config caps else []) ++ [.reap] ++
              outcome system sub config)) ∧
      (runDecode system sub).1.filter essential =
        .decode (setupLogging sub) sub.workingDirectory (system.absolute sub.output) sub.sampling
          (buildFilterConfig sub) :: maybeServe sub (system.absolute sub.output) :=
  ⟨runRun_essential system sub status, runAttach_essential system sub turns watch status,
    runDecode_essential system sub⟩

/-! What is decoded. -/

/-- The file that perf writes. It is the output itself if that is the recording. -/
def recordedPath (system : System) (sub : Options) : Text :=
  if sub.noDecode then system.absolute (outputPath system sub)
  else workDir system sub ++ text "/perf.data"

/-- The runs that record: what they do, and what stands behind the options for
perf, which is the program or the processes. -/
inductive Recording (system : System) (sub : Options) : List Action → List Text → Prop
  | run (status : ExitStatus) :
    Recording system sub (runRun system sub status).1 (text "--" :: sub.program :: sub.args)
  | attach (turns : Nat) (watch : Watch) (status : ExitStatus) :
    Recording system sub (runAttach system sub turns watch status).1
      ((if sub.multiThread then [text "-p"] else [text "--per-thread", text "-t"]) ++
        [pidList (parsePids sub.pid)])

/-- Falling back changes nothing but the mode. The other options reach perf as
they are. -/
theorem setUp_multiThread (system : System) (sub : Options) :
    (setUp system sub).1.multiThread = sub.multiThread := by
  have same : (setUp system sub).1.multiThread =
      (fallBack (buildConfigFromSub sub) (detectCapabilities system.facts)).1.multiThread := rfl
  rw [same, fallBack]
  split
  · rfl
  · rfl

/-- What a recording does is nothing, or it starts perf for its target and reaps
it before anything becomes of the recording. -/
theorem Recording.essential {system : System} {sub : Options} {actions : List Action}
    {target : List Text} (recording : Recording system sub actions target) :
    actions.filter MainProgram.essential = [] ∨
      ∃ signals : List Signal, actions.filter MainProgram.essential =
        .spawn (recordArgs system sub (buildCommonRecordArgs (setUp system sub).1
          (detectCapabilities system.facts) ++ target)) ::
          (signals.map .kill ++ [.reap] ++ outcome system sub (setUp system sub).1) := by
  cases recording with
  | run status =>
    right
    refine ⟨[], ?_⟩
    rw [runRun_essential, buildPerfRunArgs, List.append_assoc, List.append_assoc]
    rfl
  | attach turns watch status =>
    by_cases unnamed : parsePids sub.pid = []
    · left
      rw [runAttach_essential, if_pos unnamed]
    · right
      have args : buildPerfRecordArgs (setUp system sub).1 (detectCapabilities system.facts)
          (parsePids sub.pid) =
          buildCommonRecordArgs (setUp system sub).1 (detectCapabilities system.facts) ++
            ((if sub.multiThread then [text "-p"] else [text "--per-thread", text "-t"]) ++
              [pidList (parsePids sub.pid)]) := by
        rw [buildPerfRecordArgs, if_pos unnamed, setUp_multiThread]
        split
        · rw [List.append_assoc]
        · simp only [List.append_assoc]
          rfl
      rw [runAttach_essential, if_neg unnamed, args]
      cases watch with
      | interrupted => exact ⟨_, rfl⟩
      | ended status => exact ⟨[], rfl⟩

/-- Without decoding the path of the recording is reported. It is the path that
perf was given. -/
theorem Recording.saved {system : System} {sub : Options} {actions : List Action}
    {target : List Text} (recording : Recording system sub actions target)
    (started : actions.filter MainProgram.essential ≠ []) (saved : sub.noDecode = true) :
    .report (text "Saved to: " ++ recordedPath system sub ++ text "\n") ∈ actions := by
  have said : .report (text "Saved to: " ++ recordedPath system sub ++ text "\n") ∈
      decodeOrSave system sub (setUp system sub).1 := by
    rw [decodeOrSave, recordedPath, if_pos saved, if_pos saved]
    exact List.mem_singleton.mpr rfl
  cases recording with
  | run status => exact List.mem_append_right _ said
  | attach turns watch status =>
    by_cases unnamed : parsePids sub.pid = []
    · rw [runAttach_essential, if_pos unnamed] at started
      exact absurd rfl started
    · rw [runAttach, if_neg unnamed]
      exact List.mem_append_right _ said

/-- A recording becomes at most one trace, which may be served. No trace is made
of a recording that is saved. -/
theorem outcome_cases {system : System} {sub : Options} {config : PerfConfig} {action : Action}
    (result : action ∈ outcome system sub config) :
    sub.noDecode = false ∧
      (action = .decode (setupLogging sub) (workDir system sub) (outputPath system sub)
          config.sampling (buildFilterConfig sub) ∨
        action = .serve (outputPath system sub) (UInt16.ofInt sub.servePort)) := by
  unfold outcome maybeServe at result
  split at result
  · exact absurd result List.not_mem_nil
  · next decoded =>
    refine ⟨Bool.not_eq_true _ ▸ decoded, ?_⟩
    rcases List.mem_cons.mp result with decode | serve
    · exact .inl decode
    · split at serve
      · exact .inr (List.mem_singleton.mp serve)
      · exact absurd serve List.not_mem_nil

/-- What is decoded in a recording is its outcome: neither the start of perf,
nor a signal to it, nor its end is a decoding. -/
theorem Recording.decoded {system : System} {sub : Options} {actions : List Action}
    {target : List Text} (recording : Recording system sub actions target) {level : Level}
    {workingDir output : Text} {sampling : Bool} {filterConfig : TraceFilter.Config}
    (decoded : .decode level workingDir output sampling filterConfig ∈ actions) :
    sub.noDecode = false ∧ workingDir = workDir system sub ∧
      sampling = (setUp system sub).1.sampling := by
  have kept : .decode level workingDir output sampling filterConfig ∈
      actions.filter MainProgram.essential := List.mem_filter.mpr ⟨decoded, rfl⟩
  rcases recording.essential with unstarted | ⟨signals, started⟩
  · rw [unstarted] at kept
    exact absurd kept List.not_mem_nil
  · rw [started, List.mem_cons, List.mem_append, List.mem_append, List.mem_map,
      List.mem_singleton] at kept
    rcases kept with different | (⟨signal, -, different⟩ | different) | result
    · cases different
    · cases different
    · cases different
    · obtain ⟨decodes, same | different⟩ := outcome_cases result
      · injection same with _ directory _ mode _
        exact ⟨decodes, directory, mode⟩
      · cases different

end MainProgram

end Tracey
