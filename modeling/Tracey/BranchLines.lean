import Tracey.HeaderLines

/-!
# Branch lines

The lines that perf script prints for branches, and what the parser makes of
them. A line is built from an event and from what the event does not show: the
spelling of a jump, the period, the selector, the names of the binaries and the
numbers of blanks between the fields.

The header and the two ends of a branch are read back here, each stage of the
parser from the part of the line that it consumes.
-/

namespace Tracey

open Numerals TextSearch

namespace PerfScriptParser

/-- The words for kinds of branches, as perf spells them. A conditional jump has
a word of its own. -/
inductive KindWord where
  | call
  | return
  | jmp
  | jcc
  | syscall
  | sysret
  | hwInt
  | int
  | iret
  | async
  | txAbrt
deriving DecidableEq, Repr

namespace KindWord

/-- There are finitely many words for a kind of branch, so that what holds of
each can be decided. -/
instance : Fintype KindWord where
  elems := {call, «return», jmp, jcc, syscall, sysret, hwInt, int, iret, async, txAbrt}
  complete := by rintro ⟨⟩ <;> decide

/-- The word as perf prints it. Two of them contain a space. -/
def spelling : KindWord → Text
  | call => text "call"
  | «return» => text "return"
  | jmp => text "jmp"
  | jcc => text "jcc"
  | syscall => text "syscall"
  | sysret => text "sysret"
  | hwInt => text "hw int"
  | int => text "int"
  | iret => text "iret"
  | async => text "async"
  | txAbrt => text "tx abrt"

/-- The kind that the word stands for. Two words stand for a jump. Every kind
has a word. -/
def kind : KindWord → BranchKind
  | call => .call
  | «return» => .return
  | jmp => .jump
  | jcc => .jump
  | syscall => .syscall
  | sysret => .sysret
  | hwInt => .hardwareInterrupt
  | int => .interrupt
  | iret => .iret
  | async => .async
  | txAbrt => .txAbort

end KindWord

/-- There are three ways in which tracing may go on. -/
instance : Fintype TraceState where
  elems := {.none, .start, .end}
  complete := by rintro ⟨⟩ <;> decide

/-- The kind and the trace state of a branch, of which one is there. perf prints
nothing for the other one. -/
structure Flags where
  word : Option KindWord
  traceState : TraceState
  present : word ≠ none ∨ traceState ≠ .none

namespace Flags

/-- The flags as perf combines them. The trace state comes first, and the blanks
between the two differ from case to case. -/
def text (f : Flags) : Text :=
  match f.traceState, f.word with
  | .none, none => []
  | .none, some word => word.spelling
  | .start, none => Tracey.text "tr strt"
  | .start, some word => Tracey.text "tr strt " ++ word.spelling
  | .end, none => Tracey.text "tr end"
  | .end, some word => Tracey.text "tr end  " ++ word.spelling

end Flags

/-- What follows the address of an end of a branch: a name and a binary, each
any text. -/
structure Label where
  name : Text
  dso : Text

/-- The name and the binary, with blanks between them. The binary stands in
parentheses. -/
def Label.text (a : Label) (pad : Nat) : Text :=
  a.name ++ (spaces (pad + 1) ++ (Tracey.text "(" ++ (a.dso ++ Tracey.text ")")))

/-- A line for a branch, but for the labels of its two ends. All its blanks are
counted, and the selector of the event may be any word. -/
structure BranchFrame where
  pid : UInt32
  tid : UInt32
  timeNs : UInt64
  period : Nat
  selector : Text
  selectorPlain : byte ' ' ∉ selector
  flags : Flags
  inTransaction : Bool
  srcIp : UInt64
  dstIp : UInt64
  linePad : Nat
  timePad : Nat
  periodPad : Nat
  eventPad : Nat
  flagsPad : Nat
  markPad : Nat
  srcPad : Nat
  srcNamePad : Nat
  srcDsoPad : Nat
  arrowPad : Nat
  dstPad : Nat
  dstNamePad : Nat
  dstDsoPad : Nat

namespace BranchFrame

/-- The mark of a transaction, with the blanks before it. Without a transaction
there are neither. -/
def mark (f : BranchFrame) : Text :=
  if f.inTransaction then spaces (f.markPad + 1) ++ Tracey.text "(x)" else []

/-- The source with its address. The blanks behind the address are those of the
line. -/
def source (f : BranchFrame) (a : Label) : Text :=
  numeral 16 f.srcIp.toNat ++ (spaces (f.srcNamePad + 1) ++ a.text f.srcDsoPad)

/-- The destination with its address. -/
def destination (f : BranchFrame) (b : Label) : Text :=
  numeral 16 f.dstIp.toNat ++ (spaces (f.dstNamePad + 1) ++ b.text f.dstDsoPad)

/-- The flags and the source. The arrow comes behind them. -/
def front (f : BranchFrame) (a : Label) : Text :=
  f.flags.text ++ (f.mark ++ (spaces (f.srcPad + 1) ++ f.source a))

/-- Everything from the flags on. It is what the parser reads once it knows the
event. -/
def branch (f : BranchFrame) (a b : Label) : Text :=
  f.front a ++
    (spaces f.arrowPad ++ (Tracey.text " => " ++ (spaces f.dstPad ++ f.destination b)))

/-- The period and everything behind it. The name of the event stands first in
it. -/
def counted (f : BranchFrame) (a b : Label) : Text :=
  decimal f.period ++ (spaces (f.eventPad + 1) ++ (Tracey.text "branches" ++
    (Tracey.text ":" ++ f.selector ++ Tracey.text ":" ++
      (spaces (f.flagsPad + 1) ++ f.branch a b))))

/-- The time and everything behind it. -/
def timed (f : BranchFrame) (a b : Label) : Text :=
  decimal (f.timeNs.toNat / 10 ^ 9) ++ (Tracey.text "." ++ (padded 9 (f.timeNs.toNat % 10 ^ 9) ++
    (Tracey.text ":" ++ (spaces (f.periodPad + 1) ++ f.counted a b))))

/-- The line with labels for its two ends. The labels may be any texts here. -/
def text (f : BranchFrame) (a b : Label) : Text :=
  spaces f.linePad ++ (decimal f.pid.toNat ++ (Tracey.text "/" ++ (decimal f.tid.toNat ++
    (spaces (f.timePad + 1) ++ f.timed a b))))

end BranchFrame

/-- A symbol with its offset, or none. No symbol begins with a blank, and no
offset is as large as 2 to the 31st power. -/
inductive Name where
  | unknown
  | known (symbol : Text) (offset : Nat) (small : offset < 2 ^ 31)
      (begins : ∀ c ∈ symbol.head?, isBlank c = false)

namespace Name

/-- The name as it is printed, with its offset behind `+0x`. The offset is
written in hexadecimal digits. -/
def text : Name → Text
  | unknown => Tracey.text "[unknown]"
  | known symbol offset _ _ => symbol ++ Tracey.text "+0x" ++ numeral 16 offset

/-- The symbol that is read of it. An unknown one is read as its brackets and
all. -/
def symbol : Name → Text
  | unknown => Tracey.text "[unknown]"
  | known symbol _ _ _ => symbol

/-- The offset that is read of it. An unknown symbol has none. -/
def offset : Name → Int32
  | unknown => 0
  | known _ offset _ _ => Int32.ofNat offset

end Name

/-- One end of a branch: an address, a name and a binary, with blanks between
them. -/
structure Place where
  ip : UInt64
  name : Name
  dso : Text
  dsoPlain : ¬ text "+0x" <:+: dso
  namePad : Nat
  dsoPad : Nat

namespace Place

/-- The name and the binary. Only the name is kept when it is read. -/
def label (p : Place) : Text :=
  p.name.text ++ (spaces (p.dsoPad + 1) ++ (Tracey.text "(" ++ (p.dso ++ Tracey.text ")")))

/-- A place as it is printed: the address, the name and the object file in
parentheses. -/
def text (p : Place) : Text := numeral 16 p.ip.toNat ++ (spaces (p.namePad + 1) ++ p.label)

/-- The texts of the name and the binary. -/
def texts (p : Place) : Label := { name := p.name.text, dso := p.dso }

/-- The place as it is read. The object file is not kept. It has the address,
the symbol and the offset. -/
def location (p : Place) : Location :=
  { ip := p.ip, symbol := p.name.symbol, symbolOffset := p.name.offset }

end Place

/-- A line for a branch. Its source contains neither an arrow nor the mark of a
transaction, and what else it says is not restricted. -/
structure BranchLine where
  pid : UInt32
  tid : UInt32
  timeNs : UInt64
  period : Nat
  selector : Text
  selectorPlain : byte ' ' ∉ selector
  flags : Flags
  inTransaction : Bool
  src : Place
  dst : Place
  noArrow : ¬ text " => " <:+: src.text
  noMark : ¬ text "(x)" <:+: src.text
  linePad : Nat
  timePad : Nat
  periodPad : Nat
  eventPad : Nat
  flagsPad : Nat
  markPad : Nat
  srcPad : Nat
  arrowPad : Nat
  dstPad : Nat

namespace BranchLine

/-- The mark of a transaction, with the blanks before it. -/
def mark (l : BranchLine) : Text :=
  if l.inTransaction then spaces (l.markPad + 1) ++ Tracey.text "(x)" else []

/-- The flags and the source. -/
def front (l : BranchLine) : Text :=
  l.flags.text ++ (l.mark ++ (spaces (l.srcPad + 1) ++ l.src.text))

/-- Everything from the flags on. -/
def branch (l : BranchLine) : Text :=
  l.front ++ (spaces l.arrowPad ++ (Tracey.text " => " ++ (spaces l.dstPad ++ l.dst.text)))

/-- The period and everything behind it. -/
def counted (l : BranchLine) : Text :=
  decimal l.period ++ (spaces (l.eventPad + 1) ++ (Tracey.text "branches" ++
    (Tracey.text ":" ++ l.selector ++ Tracey.text ":" ++ (spaces (l.flagsPad + 1) ++ l.branch))))

/-- The time and everything behind it. -/
def timed (l : BranchLine) : Text :=
  decimal (l.timeNs.toNat / 10 ^ 9) ++ (Tracey.text "." ++ (padded 9 (l.timeNs.toNat % 10 ^ 9) ++
    (Tracey.text ":" ++ (spaces (l.periodPad + 1) ++ l.counted))))

/-- The line as perf script prints it. It ends with the destination. -/
def text (l : BranchLine) : Text :=
  spaces l.linePad ++ (decimal l.pid.toNat ++ (Tracey.text "/" ++ (decimal l.tid.toNat ++
    (spaces (l.timePad + 1) ++ l.timed))))

/-- The line without the labels of its two ends. The parser reads most of a line
without looking at these. -/
def frame (l : BranchLine) : BranchFrame where
  pid := l.pid
  tid := l.tid
  timeNs := l.timeNs
  period := l.period
  selector := l.selector
  selectorPlain := l.selectorPlain
  flags := l.flags
  inTransaction := l.inTransaction
  srcIp := l.src.ip
  dstIp := l.dst.ip
  linePad := l.linePad
  timePad := l.timePad
  periodPad := l.periodPad
  eventPad := l.eventPad
  flagsPad := l.flagsPad
  markPad := l.markPad
  srcPad := l.srcPad
  srcNamePad := l.src.namePad
  srcDsoPad := l.src.dsoPad
  arrowPad := l.arrowPad
  dstPad := l.dstPad
  dstNamePad := l.dst.namePad
  dstDsoPad := l.dst.dsoPad

/-- A line is its frame, filled with the labels of its two places. Results about
frames with any labels apply to it. -/
theorem text_frame (l : BranchLine) : l.text = l.frame.text l.src.texts l.dst.texts := rfl

/-- The branch that the line reports. Nothing else is kept of it. -/
def data (l : BranchLine) : BranchData :=
  { kind := l.flags.word.map KindWord.kind
    traceState := l.flags.traceState
    inTransaction := l.inTransaction
    src := l.src.location
    dst := l.dst.location }

/-- The event the line stands for. It belongs to the thread of the header and
has its time. -/
def event (l : BranchLine) : Event :=
  .ok { pid := l.pid, tid := l.tid, timeNs := l.timeNs, data := .branch l.data }

end BranchLine

/-! The header. -/

/-- The part of a branch line that every event has. It ends before the name of
the event. -/
def BranchFrame.header (f : BranchFrame) : HeaderFrame where
  pid := f.pid
  tid := f.tid
  timeNs := f.timeNs
  period := f.period
  linePad := f.linePad
  timePad := f.timePad
  periodPad := f.periodPad
  eventPad := f.eventPad

/-- The line opens with a header; behind the name of the event come the branch
and its places. -/
theorem text_header (f : BranchFrame) (a b : Label) :
    f.text a b = f.header.text (text "branches" ++
      (text ":" ++ f.selector ++ text ":" ++ (spaces (f.flagsPad + 1) ++ f.branch a b))) := rfl

/-- The header of a branch line is read back. The selector is passed over,
whatever it is. -/
theorem parseHeader_text (f : BranchFrame) (a b : Label) :
    parseHeader (f.text a b) = some ⟨f.pid, f.tid, f.timeNs, text "branches",
      spaces (f.flagsPad + 1) ++ f.branch a b⟩ := by
  have letters : ∀ c ∈ text "branches", isNameByte c = true := List.all_eq_true.mp (by decide)
  have selected : ∀ c ∈ text ":" ++ f.selector ++ text ":", decide (c ≠ byte ' ') = true := by
    intro c member
    apply decide_eq_true
    rintro rfl
    simp only [List.mem_append] at member
    rcases member with (colon | inside) | colon
    · exact absurd colon (by decide)
    · exact f.selectorPlain inside
    · exact absurd colon (by decide)
  have behind := (takeWhile_digits selected (spaces (f.flagsPad + 1) ++ f.branch a b)
    (head_stops (by decide))).2
  have stops : ∀ c ∈ (text ":" ++ f.selector ++ text ":" ++
      (spaces (f.flagsPad + 1) ++ f.branch a b)).head?, isNameByte c = false :=
    head_stops (by decide)
  rw [text_header, parseHeader_frame f.header (by decide) letters stops, behind]
  rfl

/-- A branch line does not report an error. -/
theorem parseDecodeError_text (f : BranchFrame) (a b : Label) : parseDecodeError (f.text a b) = none :=
  parseDecodeError_header f.header _

/-! Locations. -/

/-- A printed address is read back. It has at most sixteen digits. -/
theorem parseHex64_numeral (number : UInt64) : parseHex64 (numeral 16 number.toNat) = number := by
  have plain : ∀ c ∈ numeral 16 number.toNat, c ≠ byte 'x' ∧ c ≠ byte 'X' :=
    numeral_forall (P := fun c => c ≠ byte 'x' ∧ c ≠ byte 'X') (by decide) (by decide) (by decide) _
  have unprefixed : ¬ (text "0x" <+: numeral 16 number.toNat ∨
      text "0X" <+: numeral 16 number.toNat) := by
    rintro (small | large)
    · exact (plain (byte 'x') (small.subset (by decide))).1 rfl
    · exact (plain (byte 'X') (large.subset (by decide))).2 rfl
  rw [parseHex64, if_neg unprefixed, fromChars_numeral (by decide) (by decide) number.toNat_lt,
    UInt64.ofNat_toNat]

/-- A printed number behind `0x` is read back if 64 bits hold it. -/
theorem parseHex64_prefixed {number : Nat} (fits : number < 2 ^ 64) :
    parseHex64 (text "0x" ++ numeral 16 number) = UInt64.ofNat number := by
  have begins : text "0x" <+: text "0x" ++ numeral 16 number := List.prefix_append _ _
  have dropped : (text "0x" ++ numeral 16 number).drop 2 = numeral 16 number := rfl
  rw [parseHex64, if_pos (Or.inl begins), dropped, fromChars_numeral (by decide) (by decide) fits]

/-- The first space is found behind what has none. It may be the last byte. -/
theorem find_space {before after : Text} (absent : byte ' ' ∉ before) :
    find (text " ") (before ++ byte ' ' :: after) = some before.length := by
  have here : find (text " ") (byte ' ' :: after) = some 0 :=
    find_begins (List.prefix_append (text " ") after)
  have passed := find_skip [] (byte ' ' :: after) absent
  rw [show [byte ' '] = text " " from rfl, here] at passed
  simpa using passed

/-- What is before the first space is read as the first word. The rest is not
looked at. -/
theorem firstWord_append {before after : Text} (absent : byte ' ' ∉ before) :
    firstWord (before ++ byte ' ' :: after) = before := by
  rw [firstWord, find_space absent]
  exact List.take_left

/-- An offset survives its conversions. It is taken modulo 2 to the 32nd power
on the way. -/
theorem offset_converted (offset : Nat) :
    (UInt64.ofNat offset).toUInt32.toInt32 = Int32.ofNat offset := by
  rw [UInt64.toUInt32_ofNat']
  rfl

/-- A binary's name and the blanks around it hold no offset. The last `+0x` of
the line is therefore that of the name. -/
theorem dso_plain (p : Place) (count : Nat) :
    ¬ text "+0x" <:+: spaces (p.dsoPad + 1) ++
      (text "(" ++ (p.dso ++ text ")")) ++ spaces count := by
  intro inside
  have foreign : ∀ c ∈ text ")" ++ spaces count, c ∉ text "+0x" := by
    intro c member
    rcases List.mem_append.mp member with bracket | blank
    · rw [List.mem_singleton.mp bracket]
      decide
    · rw [mem_spaces blank]
      decide
  have absent : byte '+' ∉ spaces (p.dsoPad + 1) ++ text "(" := by
    intro member
    rcases List.mem_append.mp member with blank | bracket
    · exact absurd (mem_spaces blank) (by decide)
    · exact absurd bracket (by decide)
  have whole : spaces (p.dsoPad + 1) ++ (text "(" ++ (p.dso ++ text ")")) ++ spaces count =
      spaces (p.dsoPad + 1) ++ text "(" ++ (p.dso ++ (text ")" ++ spaces count)) := by simp
  rw [whole] at inside
  have behind : text "+0x" <:+: p.dso ++ (text ")" ++ spaces count) := infix_of_skip absent inside
  exact p.dsoPlain (infix_of_foreign (by decide) foreign behind)

/-- A symbol is read up to the last offset, and the offset up to a space. A
symbol that contains `+0x` itself is read whole. -/
theorem parseSymbolAndOffset_offset (symbol : Text) {offset : Nat} (small : offset < 2 ^ 64)
    {rest : Text} (plain : ¬ text "+0x" <:+: byte ' ' :: rest) :
    parseSymbolAndOffset (symbol ++ (text "+0x" ++ (numeral 16 offset ++ byte ' ' :: rest))) =
      (symbol, Int32.ofNat offset) := by
  have digits : ∀ c ∈ numeral 16 offset, c ≠ byte '+' ∧ c ≠ byte ' ' :=
    numeral_forall (P := fun c => c ≠ byte '+' ∧ c ≠ byte ' ') (by decide) (by decide)
      (by decide) offset
  have unsigned : byte '+' ∉ text "0x" ++ numeral 16 offset := by
    intro member
    rcases List.mem_append.mp member with marker | digit
    · exact absurd marker (by decide)
    · exact (digits _ digit).1 rfl
  have unbroken : byte ' ' ∉ text "0x" ++ numeral 16 offset := by
    intro member
    rcases List.mem_append.mp member with marker | digit
    · exact absurd marker (by decide)
    · exact (digits _ digit).2 rfl
  have last : ¬ text "+0x" <:+: text "0x" ++ (numeral 16 offset ++ byte ' ' :: rest) := by
    intro inside
    rw [← List.append_assoc] at inside
    exact plain (infix_of_skip unsigned inside)
  have found : rfind (text "+0x")
      (symbol ++ (text "+0x" ++ (numeral 16 offset ++ byte ' ' :: rest))) = some symbol.length :=
    rfind_last last
  have dropped : (symbol ++ (text "+0x" ++ (numeral 16 offset ++ byte ' ' :: rest))).drop
      (symbol.length + 1) = text "0x" ++ numeral 16 offset ++ byte ' ' :: rest := by
    rw [← List.drop_drop, List.drop_left]
    rfl
  rw [parseSymbolAndOffset, found]
  simp only [dropped, firstWord_append unbroken, List.take_left, parseHex64_prefixed small,
    offset_converted]

/-- The symbol and the offset of a place are read back. A name without an offset
is unknown. -/
theorem parseSymbolAndOffset_label (p : Place) (count : Nat) :
    parseSymbolAndOffset (p.label ++ spaces count) = (p.name.symbol, p.name.offset) := by
  have plain := dso_plain p count
  have shape : p.label ++ spaces count = p.name.text ++ (spaces (p.dsoPad + 1) ++
      (text "(" ++ (p.dso ++ text ")")) ++ spaces count) := by simp [Place.label]
  rw [shape]
  cases name : p.name with
  | unknown =>
    have absent : byte '+' ∉ text "[unknown]" := by decide
    have missing : ¬ text "+0x" <:+: Name.unknown.text ++ (spaces (p.dsoPad + 1) ++
        (text "(" ++ (p.dso ++ text ")")) ++ spaces count) :=
      fun inside => plain (infix_of_skip absent inside)
    rw [parseSymbolAndOffset, rfind_none missing]
    rfl
  | known symbol offset small begins =>
    have whole : (Name.known symbol offset small begins).text ++ (spaces (p.dsoPad + 1) ++
        (text "(" ++ (p.dso ++ text ")")) ++ spaces count) =
          symbol ++ (text "+0x" ++ (numeral 16 offset ++ byte ' ' ::
            (spaces p.dsoPad ++ (text "(" ++ (p.dso ++ text ")")) ++ spaces count))) := by
      simp [Name.text, spaces, List.replicate_succ]
    rw [whole]
    exact parseSymbolAndOffset_offset symbol (by omega) plain

/-- No label begins with a blank. -/
theorem skipSpaces_label (p : Place) (count : Nat) (rest : Text) :
    skipSpaces (spaces count ++ (p.label ++ rest)) = p.label ++ rest := by
  rw [skipSpaces_spaces]
  apply skipSpaces_head
  rw [Place.label, List.append_assoc]
  cases p.name with
  | unknown => exact head_stops (by decide)
  | known symbol offset small begins =>
    cases symbol with
    | nil => exact head_stops (by decide)
    | cons c more => exact head_stops (begins c rfl)

/-- A printed place is read back, however many blanks follow it. The blanks come
before the arrow. -/
theorem parseLocation_label (p : Place) (count : Nat) :
    parseLocation (numeral 16 p.ip.toNat) (p.label ++ spaces count) = p.location := by
  rw [parseLocation, parseHex64_numeral, parseSymbolAndOffset_label]
  rfl

/-- A source is read as its address and what follows the blanks behind it. There
is at least one. -/
theorem parseSource_numeral (ip : UInt64) (pad : Nat) (rest : Text) :
    parseSource (numeral 16 ip.toNat ++ (spaces (pad + 1) ++ rest)) =
      parseLocation (numeral 16 ip.toNat) (skipSpaces rest) := by
  have absent : byte ' ' ∉ numeral 16 ip.toNat := fun member =>
    numeral_forall (P := fun c => c ≠ byte ' ') (by decide) (by decide) (by decide) _ _ member rfl
  have found : find (text " ") (numeral 16 ip.toNat ++ (spaces (pad + 1) ++ rest)) =
      some (numeral 16 ip.toNat).length := find_space absent
  rw [parseSource, found]
  simp only [List.take_left, List.drop_left, skipSpaces_spaces]

/-- A destination is read as its address and what follows the blanks behind it. -/
theorem parseDestination_numeral (ip : UInt64) (count pad : Nat) (rest : Text) :
    parseDestination (spaces count ++ (numeral 16 ip.toNat ++ (spaces (pad + 1) ++ rest))) =
      parseLocation (numeral 16 ip.toNat) (skipSpaces rest) := by
  have digits : ∀ c ∈ numeral 16 ip.toNat, isDigit 16 c = true :=
    numeral_isDigit (by decide) (by decide) _
  obtain ⟨taken, dropped⟩ := takeWhile_digits digits (spaces (pad + 1) ++ rest)
    (head_stops (by decide))
  rw [parseDestination, skipSpaces_numeral (by decide) (by decide), consumeHex, taken, dropped]
  simp only [skipSpaces_spaces]

/-- The source of a branch is read back. Its label ends before the blanks of the
arrow. -/
theorem parseSource_text (p : Place) (count : Nat) :
    parseSource (p.text ++ spaces count) = p.location := by
  have label := skipSpaces_label p 0 (spaces count)
  rw [spaces, List.replicate_zero, List.nil_append] at label
  rw [Place.text, List.append_assoc, List.append_assoc, parseSource_numeral, label,
    parseLocation_label]

/-- The destination of a branch is read back. Blanks before it are skipped. -/
theorem parseDestination_text (p : Place) (count : Nat) :
    parseDestination (spaces count ++ p.text) = p.location := by
  have label := skipSpaces_label p 0 []
  have location := parseLocation_label p 0
  simp only [spaces, List.replicate_zero, List.nil_append, List.append_nil] at label location
  rw [Place.text, parseDestination_numeral, label, location]

end PerfScriptParser

end Tracey
