import Tracey.BranchRoundTrip

/-!
# What the symbols of a branch line can influence

Two branch lines that differ only in the names and the binaries of their ends
are meant to give events with the same metadata. The mark of a transaction is
searched in everything before the arrow, the source's name and binary included,
so a source that contains the letters of the mark is taken for one in a
transaction. Everything else is read from the parts that the two lines share.
-/

namespace Tracey

open Numerals TextSearch

/-- What an event says of a branch apart from symbols: the thread, the time, the
kind and state, the transaction and the two addresses. -/
structure BranchMetadata where
  pid : UInt32
  tid : UInt32
  timeNs : UInt64
  kind : Option BranchKind
  traceState : TraceState
  inTransaction : Bool
  srcIp : UInt64
  dstIp : UInt64
deriving DecidableEq, Repr

/-- The metadata of an event, if it is a branch. Offsets belong to the symbols
and are left out. -/
def Event.metadata : Event → Option BranchMetadata
  | .ok { pid, tid, timeNs, data := .branch data } => some
      { pid, tid, timeNs
        kind := data.kind
        traceState := data.traceState
        inTransaction := data.inTransaction
        srcIp := data.src.ip
        dstIp := data.dst.ip }
  | _ => none

namespace PerfScriptParser

/-- Both are branches, with the same metadata. Two lines that give no event do
not count as the same. -/
def SameMetadata (event other : Option Event) : Prop :=
  ∃ metadata, event.bind Event.metadata = some metadata ∧ other.bind Event.metadata = some metadata

/-- The event returned for one line at the end of the input. Nothing follows
that could join its group. -/
def readLine (p : PerfScriptParser) (line : Text) : Option Event := (p.feedLine line).1.finish.2

/-- The letters of the mark stand in the name or the binary of the source. They
need not stand as a word. -/
def BranchFrame.MarkedSource (f : BranchFrame) (a : Label) : Prop :=
  Tracey.text "(x)" <:+: f.source a

/-- The metadata comes from the frame of the line, but for the mark. The labels
are looked at for the mark alone. -/
theorem readLine_metadata (p : PerfScriptParser) (f : BranchFrame) {a : Label} (b : Label)
    (noArrow : ¬ text " => " <:+: f.source a) :
    (p.readLine (f.text a b)).bind Event.metadata = some
      { pid := f.pid
        tid := f.tid
        timeNs := f.timeNs
        kind := f.flags.word.map KindWord.kind
        traceState := f.flags.traceState
        inTransaction := (find (text "(x)") (f.front a ++ spaces f.arrowPad)).isSome
        srcIp := f.srcIp
        dstIp := f.dstIp } := by
  obtain ⟨nonempty, starts⟩ := text_starts f a b
  have returned : p.readLine (f.text a b) = parseGroup [f.text a b] := by
    rw [readLine, feedLine_starts p nonempty starts, finish, flushAccumulated,
      if_neg (List.cons_ne_nil _ _)]
  have source : (parseSource (f.source a ++ spaces f.arrowPad)).ip = f.srcIp := by
    rw [BranchFrame.source, List.append_assoc, List.append_assoc, parseSource_numeral]
    exact parseHex64_numeral f.srcIp
  have destination : (parseDestination (spaces f.dstPad ++ f.destination b)).ip = f.dstIp := by
    rw [BranchFrame.destination, parseDestination_numeral]
    exact parseHex64_numeral f.dstIp
  rw [returned, parseGroup_frame, parseBranch_frame f b noArrow]
  simp only [Option.map_some, Option.bind_some, Event.metadata, source, destination]

/-- Two lines with the same frame give events with the same metadata if and only
if the frame marks a transaction, or the letters of the mark stand in both
sources or in none. -/
theorem metadata_same_iff (f : BranchFrame) (p q : PerfScriptParser) {a a' : Label} (b b' : Label)
    (noArrow : ¬ text " => " <:+: f.source a) (noArrow' : ¬ text " => " <:+: f.source a') :
    SameMetadata (p.readLine (f.text a b)) (q.readLine (f.text a' b')) ↔
      f.inTransaction = true ∨ (f.MarkedSource a ↔ f.MarkedSource a') := by
  have first := readLine_metadata p f b noArrow
  have second := readLine_metadata q f b' noArrow'
  have marks : ((find (text "(x)") (f.front a ++ spaces f.arrowPad)).isSome =
      (find (text "(x)") (f.front a' ++ spaces f.arrowPad)).isSome) ↔
        f.inTransaction = true ∨ (f.MarkedSource a ↔ f.MarkedSource a') := by
    rw [Bool.eq_iff_iff, find_mark, find_mark]
    constructor
    · intro same
      by_cases marked : f.inTransaction = true
      · exact .inl marked
      · exact .inr (by simpa [marked, BranchFrame.MarkedSource] using same)
    · rintro (marked | same)
      · simp [marked]
      · exact or_congr_right same
  rw [← marks, SameMetadata, first, second]
  constructor
  · rintro ⟨metadata, mine, others⟩
    exact congrArg BranchMetadata.inTransaction
      ((Option.some.inj mine).trans (Option.some.inj others).symm)
  · intro same
    exact ⟨_, rfl, by rw [same]⟩

/-- A call as the tests spell it, without its labels. -/
def plainCall : BranchFrame where
  pid := 1000
  tid := 1001
  timeNs := 100000000000
  period := 1
  selector := text "uH"
  selectorPlain := callLine.selectorPlain
  flags := callLine.flags
  inTransaction := false
  srcIp := 0x7f0001000
  dstIp := 0x7f0002000
  linePad := 0
  timePad := 0
  periodPad := 11
  eventPad := 2
  flagsPad := 2
  markPad := 0
  srcPad := 20
  srcNamePad := 0
  srcDsoPad := 0
  arrowPad := 0
  dstPad := 4
  dstNamePad := 0
  dstDsoPad := 0

/-- The label of a function at an offset. The offset is part of the name here,
as it is printed. -/
def labelOf (name dso : String) : Label := { name := text name, dso := text dso }

/-- A call without a mark, spelled out. -/
example : plainCall.text (labelOf "foo+0x10" "a.so") (labelOf "bar+0x20" "b.so") =
    text ("1000/1001 100.000000000:            1   branches:uH:   " ++
      "call                     7f0001000 foo+0x10 (a.so) => " ++
      "    7f0002000 bar+0x20 (b.so)") := by decide +kernel

/-- Renaming the source to one without the letters of the mark changes no
metadata. -/
theorem metadata_same_plain :
    SameMetadata
      (({} : PerfScriptParser).readLine
        (plainCall.text (labelOf "foo+0x10" "a.so") (labelOf "bar+0x20" "b.so")))
      (({} : PerfScriptParser).readLine
        (plainCall.text (labelOf "operator new(unsigned long)+0x4" "c.so")
          (labelOf "[unknown]" "(x)"))) :=
  (metadata_same_iff plainCall {} {} _ _ (by decide) (by decide)).mpr
    (.inr (by
      have first : ¬ plainCall.MarkedSource (labelOf "foo+0x10" "a.so") := by
        unfold BranchFrame.MarkedSource
        decide
      have second : ¬ plainCall.MarkedSource
          (labelOf "operator new(unsigned long)+0x4" "c.so") := by
        unfold BranchFrame.MarkedSource
        decide
      exact iff_of_false first second))

/-- A source whose name takes an argument `x` is taken for one in a transaction. -/
theorem metadata_not_same :
    ¬ SameMetadata
      (({} : PerfScriptParser).readLine
        (plainCall.text (labelOf "f+0x10" "a.so") (labelOf "bar+0x20" "b.so")))
      (({} : PerfScriptParser).readLine
        (plainCall.text (labelOf "f(x)+0x10" "a.so") (labelOf "bar+0x20" "b.so"))) := by
  have first := readLine_metadata {} plainCall (labelOf "bar+0x20" "b.so")
    (show ¬ text " => " <:+: plainCall.source (labelOf "f+0x10" "a.so") by decide)
  have second := readLine_metadata {} plainCall (labelOf "bar+0x20" "b.so")
    (show ¬ text " => " <:+: plainCall.source (labelOf "f(x)+0x10" "a.so") by decide)
  rintro ⟨metadata, mine, others⟩
  rw [first] at mine
  rw [second] at others
  have marks := congrArg BranchMetadata.inTransaction
    ((Option.some.inj mine).trans (Option.some.inj others).symm)
  revert marks
  decide

end PerfScriptParser

end Tracey
