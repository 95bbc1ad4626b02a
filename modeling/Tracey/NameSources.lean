import Tracey.Renaming
import Tracey.ShownExecution

/-!
# Where the names come from

The parser cuts a symbol out of a line, from in front of an offset; without one
it says that the symbol is unknown. The reconstruction cannot tell other symbols
apart from renamed ones, so it has no names but those it is given and its own
two. Hence a viewer shows no function that perf script has not printed.
-/

namespace Tracey

open FxtWriter TextSearch

namespace PerfScriptParser

/-- A symbol stands in a text in front of its offset, or there is none. The
offset is what marks it as a symbol. -/
def Written (s symbol : Text) : Prop := symbol = unknownSymbol ∨ symbol ++ text "+0x" <:+: s

/-- What stands in a part of a text stands in the text. It is enough to find it
in a part. -/
theorem Written.within {part s symbol : Text} (written : Written part symbol)
    (inside : part <:+: s) : Written s symbol := by
  rcases written with unknown | found
  · exact .inl unknown
  · exact .inr (found.trans inside)

/-- What is left behind skipped spaces is the end of the text. Nothing is put in
front of it. -/
theorem skipSpaces_suffix (s : Text) : skipSpaces s <:+ s := List.dropWhile_suffix _

/-- What is left behind an address is the end of the text. -/
theorem consumeHex_suffix (s : Text) : (consumeHex s).2 <:+ s := List.dropWhile_suffix _

/-- What is left behind a number is the end of the text. -/
theorem consumeDigits_suffix (s : Text) : (consumeDigits s).2 <:+ s := List.dropWhile_suffix _

/-- A symbol is what stands in front of the last offset. A symbol without an
offset is none. -/
theorem parseSymbolAndOffset_written (str : Text) :
    Written str (parseSymbolAndOffset str).1 := by
  unfold parseSymbolAndOffset
  cases last : rfind (text "+0x") str with
  | none => exact .inl rfl
  | some plusPos =>
    right
    have joined := (List.prefix_append_right_inj (str.take plusPos)).mpr (rfind_begins last)
    rw [List.take_append_drop] at joined
    exact joined.isInfix

/-- The symbol of a place stands in the text that it is read of. The address is
read elsewhere. -/
theorem parseLocation_written (ipHex symStr : Text) :
    Written symStr (parseLocation ipHex symStr).symbol := parseSymbolAndOffset_written symStr

/-- The symbol of a source stands behind its address. -/
theorem parseSource_written (srcRest : Text) : Written srcRest (parseSource srcRest).symbol := by
  unfold parseSource
  split
  · next space _ =>
    exact (parseLocation_written _ _).within
      ((skipSpaces_suffix _).isInfix.trans (List.drop_suffix space srcRest).isInfix)
  · exact .inl rfl

/-- An address, blanks, and what is read as a location behind them. -/
theorem parseEntry_written (s hex : Text) :
    Written s (parseLocation hex (skipSpaces (consumeHex (skipSpaces s)).2)).symbol :=
  (parseLocation_written _ _).within
    (((skipSpaces_suffix _).trans (consumeHex_suffix _)).trans (skipSpaces_suffix s)).isInfix

/-- Both symbols of a branch stand in the text of the branch. One stands before
the arrow, the other behind it. -/
theorem parseBranch_written {rest : Text} {br : BranchData} (parsed : parseBranch rest = some br) :
    Written rest br.src.symbol ∧ Written rest br.dst.symbol := by
  simp only [parseBranch] at parsed
  split at parsed
  · cases parsed
  · next arrow _ =>
    split at parsed
    · cases parsed
    · next addrStart _ =>
      rw [← Option.some.inj parsed]
      have line := (skipSpaces_suffix rest).isInfix
      constructor
      · refine (parseSource_written _).within ?_
        exact ((List.drop_suffix addrStart _).isInfix.trans (List.take_prefix arrow _).isInfix).trans
          line
      · refine (parseEntry_written _ _).within ?_
        exact (List.drop_suffix (arrow + 4) _).isInfix.trans line

end PerfScriptParser

/-- The symbols in the data of an event. A change of frequency has none. -/
def EventData.symbols : EventData → List Text
  | .branch br => [br.src.symbol, br.dst.symbol]
  | .power _ => []
  | .stacktraceSample st => st.callstack.map Location.symbol
  | .eventSample sample => [sample.location.symbol]

/-- The symbols of an event. A decode error has none. -/
def Event.symbols : Event → List Text
  | .ok event => event.data.symbols
  | .decodeError _ => []

namespace PerfScriptParser

/-- What follows the name of the event is the end of the header. -/
theorem parseHeader_rest {line : Text} {header : Header} (parsed : parseHeader line = some header) :
    header.rest <:+ line := by
  simp only [parseHeader] at parsed
  split at parsed
  · cases parsed
  · split at parsed
    · cases parsed
    · split at parsed
      · cases parsed
      · rw [← Option.some.inj parsed]
        have owner := (consumeDigits_suffix _).trans (skipSpaces_suffix line)
        have thread := (consumeDigits_suffix _).trans ((List.drop_suffix 1 _).trans owner)
        have seconds := (consumeDigits_suffix _).trans ((skipSpaces_suffix _).trans thread)
        have fraction := (consumeDigits_suffix _).trans ((List.drop_suffix 1 _).trans seconds)
        have period := (consumeDigits_suffix _).trans
          ((skipSpaces_suffix _).trans ((List.drop_suffix 1 _).trans fraction))
        have named := (List.dropWhile_suffix isNameByte).trans ((skipSpaces_suffix _).trans period)
        exact (List.dropWhile_suffix _).trans named

/-- The symbol of a frame stands in its line. -/
theorem parseFrame_written {line : Text} {location : Location}
    (parsed : parseFrame line = some location) : Written line location.symbol := by
  simp only [parseFrame] at parsed
  split at parsed
  · cases parsed
  · rw [← Option.some.inj parsed]
    exact parseEntry_written line _

/-- The frames of a stack are written in their lines. Each has a line of its
own. -/
theorem parseCallstack_written (lines : List Text) :
    ∀ location ∈ (parseCallstack lines).callstack,
      ∃ line ∈ lines, Written line location.symbol := by
  intro location member
  obtain ⟨line, inside, frame⟩ := List.mem_filterMap.mp (List.mem_reverse.mp member)
  exact ⟨line, inside, parseFrame_written frame⟩

/-- A sampled location is written in the first line below the header. The other
lines are not read. -/
theorem parseSample_written {name : SampleEventName} {lines : List Text}
    {sample : EventSampleData} (parsed : parseSample name lines = some sample) :
    ∃ line ∈ lines, Written line sample.location.symbol := by
  cases lines with
  | nil => cases parsed
  | cons line more =>
    simp only [parseSample] at parsed
    rw [← Option.some.inj parsed]
    exact ⟨line, List.mem_cons_self, parseEntry_written line _⟩

/-- The symbols in the data of an event are written behind its name, or in the
lines below. -/
theorem parseData_written {eventName rest : Text} {lines : List Text} {data : EventData}
    (parsed : parseData eventName rest lines = some data) :
    ∀ symbol ∈ data.symbols, Written rest symbol ∨ ∃ line ∈ lines, Written line symbol := by
  have sampled : ∀ name, (parseSample name lines).map EventData.eventSample = some data →
      ∀ symbol ∈ data.symbols, Written rest symbol ∨ ∃ line ∈ lines, Written line symbol := by
    intro name parsed symbol member
    obtain ⟨sample, read, rfl⟩ := Option.map_eq_some_iff.mp parsed
    rw [List.mem_singleton.mp member]
    exact .inr (parseSample_written read)
  unfold parseData at parsed
  split at parsed
  · obtain ⟨br, branch, rfl⟩ := Option.map_eq_some_iff.mp parsed
    obtain ⟨src, dst⟩ := parseBranch_written branch
    intro symbol member
    left
    rcases List.mem_cons.mp member with same | member
    · exact same ▸ src
    · exact List.mem_singleton.mp member ▸ dst
  · split at parsed
    · obtain ⟨power, -, rfl⟩ := Option.map_eq_some_iff.mp parsed
      exact fun symbol member => absurd member List.not_mem_nil
    · split at parsed
      · cases parsed
      · split at parsed
        · rw [← Option.some.inj parsed]
          intro symbol member
          obtain ⟨location, inside, rfl⟩ := List.mem_map.mp member
          exact .inr (parseCallstack_written lines location inside)
        · split at parsed
          · exact sampled _ parsed
          · split at parsed
            · exact sampled _ parsed
            · cases parsed

/-- The symbols of an event are written in the lines of its group. -/
theorem parseGroup_written {lines : List Text} {event : Event}
    (parsed : parseGroup lines = some event) :
    ∀ symbol ∈ event.symbols, ∃ line ∈ lines, Written line symbol := by
  cases lines with
  | nil => cases parsed
  | cons headerLine below =>
    simp only [parseGroup] at parsed
    split at parsed
    · rw [← Option.some.inj parsed]
      exact fun symbol member => absurd member List.not_mem_nil
    · split at parsed
      · cases parsed
      · next header head =>
        obtain ⟨data, read, rfl⟩ := Option.map_eq_some_iff.mp parsed
        intro symbol member
        rcases parseData_written read symbol member with above | ⟨line, inside, written⟩
        · exact ⟨headerLine, List.mem_cons_self, above.within (parseHeader_rest head).isInfix⟩
        · exact ⟨line, List.mem_cons_of_mem headerLine inside, written⟩

end PerfScriptParser

/-- The symbols of what perf script prints are written in its lines. -/
theorem eventsOf_written {printed : Text} {event : Event} (member : event ∈ eventsOf printed) :
    ∀ symbol ∈ event.symbols,
      ∃ line ∈ Subprocess.lines printed, PerfScriptParser.Written line symbol := by
  obtain ⟨group, grouped, parsed⟩ := List.mem_filterMap.mp member
  intro symbol inside
  obtain ⟨line, within, written⟩ := PerfScriptParser.parseGroup_written parsed symbol inside
  exact ⟨line, Grouping.closings_mem _ _ 0 _ grouped line within, written⟩

/-- Slices contain events of the whole only. -/
theorem TraceFilter.kept_mem {config : TraceFilter.Config} {events : List Event} {event : Event}
    (member : event ∈ config.kept events) : event ∈ events := by
  rw [← passed_create] at member
  generalize create config = filter at member
  induction events generalizing filter with
  | nil => exact absurd member List.not_mem_nil
  | cons first rest inductionHypothesis =>
    rw [passed_cons] at member
    rcases List.mem_append.mp member with here | later
    · split at here
      · exact List.mem_cons.mpr (.inl (List.mem_singleton.mp here))
      · exact absurd here List.not_mem_nil
    · exact List.mem_cons_of_mem first (inductionHypothesis _ later)

namespace Tracker

/-- A renaming that keeps the symbols of an event keeps its work. -/
theorem work_kept {f : Renaming} {event : Event} {due : UInt64 × Work}
    (timed : event.timed = some due)
    (kept : ∀ symbol ∈ event.symbols, f.apply symbol = symbol) :
    f.work due.2 = Renaming.keep.work due.2 := by
  have location : ∀ loc : Location, f.apply loc.symbol = loc.symbol →
      f.location loc = Renaming.keep.location loc := by
    intro loc same
    rw [Renaming.location, same]
    rfl
  cases event with
  | decodeError error =>
    obtain ⟨timeNs, -, rfl⟩ := Option.map_eq_some_iff.mp timed
    rfl
  | ok event =>
    obtain ⟨pid, tid, timeNs, data⟩ := event
    cases data with
    | power data => cases timed
    | eventSample data => cases timed
    | branch br =>
      have src := location br.src (kept _ List.mem_cons_self)
      have dst := location br.dst (kept _ (List.mem_cons_of_mem _ List.mem_cons_self))
      rw [← Option.some.inj timed]
      simp only [Renaming.work, Renaming.branch, src, dst]
    | stacktraceSample st =>
      have frames : st.callstack.map f.location = st.callstack.map Renaming.keep.location :=
        List.map_congr_left (fun loc inside => location loc (kept _ (List.mem_map_of_mem inside)))
      rw [← Option.some.inj timed]
      simp only [Renaming.work, frames]

/-- A renaming that keeps the symbols of some events asks the same of the
threads. -/
theorem asked_kept {f : Renaming} {events : List Event}
    (kept : ∀ event ∈ events, ∀ symbol ∈ event.symbols, f.apply symbol = symbol) :
    asked f 0 events = asked .keep 0 events := by
  apply List.filterMap_congr
  intro event inside
  cases timed : event.timed with
  | none => rfl
  | some due =>
    have same := work_kept timed (kept event inside)
    rw [Option.map_some, Option.map_some, same]

/-- The reconstruction has no names but those of the events and its own two:
another one could be exchanged for a name that occurs nowhere, and nothing would
change. -/
theorem stamped_symbols (order : HashOrder) (events : List Event) :
    ∀ entry ∈ stamped (({} : Tracker).handed order events),
      entry.2.symbol = untracedSymbol ∨ entry.2.symbol = unknownSymbol ∨
        ∃ event ∈ events, entry.2.symbol ∈ event.symbols := by
  intro entry member
  by_contra foreign
  rw [not_or, not_or] at foreign
  obtain ⟨traced, known, absent⟩ := foreign
  let used : List Text :=
    entry.2.symbol :: untracedSymbol :: unknownSymbol :: events.flatMap Event.symbols
  obtain ⟨fresh, new⟩ := Infinite.exists_notMem_finset used.toFinset
  rw [List.mem_toFinset] at new
  have other : ∀ symbol ∈ used, symbol ≠ fresh := by
    intro symbol inside same
    exact new (same ▸ inside)
  have still : ∀ symbol ∈ used, symbol ≠ entry.2.symbol →
      Equiv.swap entry.2.symbol fresh symbol = symbol := fun symbol inside different =>
    Equiv.swap_apply_of_ne_of_ne different (other symbol inside)
  let f : Renaming := ⟨Equiv.swap entry.2.symbol fresh, Equiv.injective _,
    still _ (by simp [used]) (Ne.symm traced), still _ (by simp [used]) (Ne.symm known)⟩
  have kept : ∀ event ∈ events, ∀ symbol ∈ event.symbols, f.apply symbol = symbol := by
    intro event inside symbol within
    apply still
    · simp only [used, List.mem_cons, List.mem_flatMap]
      exact .inr (.inr (.inr ⟨event, inside, within⟩))
    · intro same
      exact absent ⟨event, inside, same ▸ within⟩
  have same := congrArg stamped (handed_alike (asked_kept kept) order)
  rw [stamped_renamed, stamped_renamed] at same
  have unmoved : f.apply entry.2.symbol = entry.2.symbol :=
    congrArg (fun stamped => stamped.2.symbol) (List.map_inj_left.mp same entry member)
  have moved : f.apply entry.2.symbol = fresh := Equiv.swap_apply_left _ _
  exact other _ List.mem_cons_self (unmoved.symm.trans moved)

end Tracker

/-- If decoding prints no warning that the string ids are used up, every name
that a viewer shows is the shortened name of a symbol that stands in front of an
offset in a line of perf script, or of the one that stands for an unknown
function, or of the one for code that has not been traced. -/
theorem names_written (surroundings : Surroundings) (level : Level) (workingDir output : Text)
    (sampling : Bool) (config : TraceFilter.Config)
    (calm : stringIdLimitReached ∉
      (decodePerfData surroundings level workingDir output sampling config).stderr) :
    ∃ seen, view (decodePerfData surroundings level workingDir output sampling config).trace =
        some seen ∧
      ∀ shown ∈ seen.filterMap Seen.shown, ∃ symbol, shown.name = displayed symbol ∧
        (symbol = untracedSymbol ∨ symbol = unknownSymbol ∨
          ∃ line ∈ Subprocess.lines
              (surroundings.printed (scriptCommand surroundings workingDir sampling)),
            symbol ++ text "+0x" <:+: line) := by
  obtain ⟨seen, read, handed⟩ := StackReconstructor.reconstruct_shown surroundings.baseTimeNs
    surroundings.order _ (decodePerfData_calm calm)
  refine ⟨seen, (decodePerfData_trace _ _ _ _ _ _).symm ▸ read, ?_⟩
  rw [handed]
  intro shown member
  obtain ⟨w, inside, ofWrite⟩ := List.mem_flatMap.mp member
  obtain ⟨stamp, within, rfl⟩ := List.mem_map.mp ofWrite
  refine ⟨stamp.symbol, rfl, ?_⟩
  have entry : (w.thread, stamp) ∈ Tracker.stamped (({} : Tracker).handed surroundings.order
      (config.kept (eventsOf (surroundings.printed
        (scriptCommand surroundings workingDir sampling))))) :=
    List.mem_flatMap.mpr ⟨w, inside, List.mem_map_of_mem within⟩
  rcases Tracker.stamped_symbols _ _ _ entry with untraced | unknown | ⟨event, kept, symbol⟩
  · exact .inl untraced
  · exact .inr (.inl unknown)
  · obtain ⟨line, printed, unknown | written⟩ :=
      eventsOf_written (TraceFilter.kept_mem kept) stamp.symbol symbol
    · exact .inr (.inl unknown)
    · exact .inr (.inr ⟨line, printed, written⟩)

/-- The names that are shown of a recorded call. -/
theorem names_written_call :
    ∃ seen, view (decodePerfData callSurroundings .normal (text "/tmp") (text "out.fxt") false
        {}).trace = some seen ∧
      ∀ shown ∈ seen.filterMap Seen.shown, ∃ symbol, shown.name = displayed symbol ∧
        (symbol = untracedSymbol ∨ symbol = unknownSymbol ∨
          ∃ line ∈ Subprocess.lines (callSurroundings.printed
              (scriptCommand callSurroundings (text "/tmp") false)),
            symbol ++ text "+0x" <:+: line) :=
  names_written callSurroundings .normal (text "/tmp") (text "out.fxt") false {} (by decide +kernel)

end Tracey
