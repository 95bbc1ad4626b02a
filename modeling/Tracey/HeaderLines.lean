import Tracey.PerfScriptParser

/-!
# The header line of an event

What perf script prints first for every event: whose it is and when it happened,
how many of its kind it counts, and its name. What follows the name depends on
the event. The header is read back whatever follows, and its line starts a
group.
-/

namespace Tracey

open Numerals

namespace PerfScriptParser

/-- Blanks as perf prints them. They are never tabs. -/
def spaces (count : Nat) : Text := List.replicate count (byte ' ')

/-- The header of an event, with blanks between its fields. There may be any
number of blanks in each place; where one is needed the count is of those beyond
it. -/
structure HeaderFrame where
  pid : UInt32
  tid : UInt32
  timeNs : UInt64
  period : Nat
  linePad : Nat
  timePad : Nat
  periodPad : Nat
  eventPad : Nat

namespace HeaderFrame

/-- The period and what is behind it, which begins with the name of the event. -/
def counted (f : HeaderFrame) (rest : Text) : Text :=
  decimal f.period ++ (spaces (f.eventPad + 1) ++ rest)

/-- The time and what is behind it. It has nine digits behind the point. -/
def timed (f : HeaderFrame) (rest : Text) : Text :=
  decimal (f.timeNs.toNat / 10 ^ 9) ++ (Tracey.text "." ++ (padded 9 (f.timeNs.toNat % 10 ^ 9) ++
    (Tracey.text ":" ++ (spaces (f.periodPad + 1) ++ f.counted rest))))

/-- The process and what is behind it. The thread stands behind the process and
a slash. -/
def owned (f : HeaderFrame) (rest : Text) : Text :=
  decimal f.pid.toNat ++ (Tracey.text "/" ++ (decimal f.tid.toNat ++
    (spaces (f.timePad + 1) ++ f.timed rest)))

/-- The line with what it says from the name of the event on. Whatever follows
the name is left open. -/
def text (f : HeaderFrame) (rest : Text) : Text := spaces f.linePad ++ f.owned rest

end HeaderFrame

/-! Blanks and digits. -/

/-- Spaces consist of spaces. -/
theorem mem_spaces {count : Nat} {c : UInt8} (member : c ∈ spaces count) : c = byte ' ' :=
  List.eq_of_mem_replicate member

/-- Skipping spaces skips all that are printed as padding. Tabs in the rest are
skipped as well. -/
theorem skipSpaces_spaces (count : Nat) (rest : Text) :
    skipSpaces (spaces count ++ rest) = skipSpaces rest := by
  apply List.dropWhile_append_of_pos
  intro c member
  rw [mem_spaces member]
  decide

/-- Where no space stands, none is skipped. -/
theorem skipSpaces_head {rest : Text} (begins : ∀ c ∈ rest.head?, isBlank c = false) :
    skipSpaces rest = rest := by
  cases rest with
  | nil => rfl
  | cons c more =>
    rw [skipSpaces, List.dropWhile_cons, begins c rfl]
    rfl

/-- Blanks before a numeral are skipped. A numeral begins with a digit, so that
nothing of it is lost. -/
theorem skipSpaces_numeral {base : Nat} (large : 2 ≤ base) (small : base ≤ 16) (count number : Nat)
    (rest : Text) :
    skipSpaces (spaces count ++ (numeral base number ++ rest)) = numeral base number ++ rest := by
  obtain ⟨c, more, whole, unblank⟩ :=
    numeral_head (P := fun c => isBlank c = false) base large small (by decide) number rest
  rw [skipSpaces_spaces]
  apply skipSpaces_head
  rw [whole]
  intro d same
  rw [← Option.some.inj same]
  exact unblank

/-- Digits are consumed up to a byte that is none. The byte that is none stays
in front of the rest. -/
theorem consumeDigits_digits {digits rest : Text} (all : ∀ c ∈ digits, isDigit 10 c = true)
    (stops : ∀ c ∈ rest.head?, isDigit 10 c = false) :
    consumeDigits (digits ++ rest) = (digits, rest) := by
  obtain ⟨taken, dropped⟩ := takeWhile_digits all rest stops
  rw [consumeDigits, taken, dropped]

/-- A printed number is consumed as a whole if something else follows. -/
theorem consumeDigits_decimal (number : Nat) (rest : Text)
    (stops : ∀ c ∈ rest.head?, isDigit 10 c = false) :
    consumeDigits (decimal number ++ rest) = (decimal number, rest) :=
  consumeDigits_digits (numeral_isDigit (by decide) (by decide) number) stops

/-- So is one with leading zeros. The zeros are digits like any others. -/
theorem consumeDigits_padded (width number : Nat) (rest : Text)
    (stops : ∀ c ∈ rest.head?, isDigit 10 c = false) :
    consumeDigits (padded width number ++ rest) = (padded width number, rest) :=
  consumeDigits_digits (padded_isDigit width number) stops

/-- A text stops a scan at its first byte. What comes behind this byte does not
matter. -/
theorem head_stops {p : UInt8 → Bool} {c : UInt8} {rest : Text} (stop : p c = false) :
    ∀ d ∈ (c :: rest).head?, p d = false := by
  intro d same
  rw [← Option.some.inj same]
  exact stop

/-- A time is read back from its seconds and nanoseconds. Nothing is lost, as
the fraction has nine digits. -/
theorem parseTime_split (time : UInt64) :
    parseTime (decimal (time.toNat / 10 ^ 9)) (padded 9 (time.toNat % 10 ^ 9)) = time := by
  have bound := time.toNat_lt
  have small : time.toNat % 10 ^ 9 < 10 ^ 9 := Nat.mod_lt _ (by decide)
  have width := length_padded (by decide) small
  have seconds : fromChars 10 64 (decimal (time.toNat / 10 ^ 9)) = time.toNat / 10 ^ 9 :=
    fromChars_numeral (by decide) (by decide) (by omega)
  have nanoseconds : fromChars 10 64 (padded 9 (time.toNat % 10 ^ 9)) = time.toNat % 10 ^ 9 :=
    fromChars_padded (by omega)
  have whole : (padded 9 (time.toNat % 10 ^ 9)).take 9 = padded 9 (time.toNat % 10 ^ 9) :=
    List.take_of_length_le (by omega)
  rw [parseTime, width, whole, Nat.sub_self, List.replicate_zero, List.append_nil, seconds,
    nanoseconds]
  apply UInt64.toNat_inj.mp
  simp only [UInt64.toNat_add, UInt64.toNat_mul, UInt64.toNat_ofNat']
  change (time.toNat / 10 ^ 9 % 2 ^ 64 * 1000000000 % 2 ^ 64 + time.toNat % 10 ^ 9 % 2 ^ 64) %
    2 ^ 64 = time.toNat
  omega

/-- A printed number of 32 bits is read back. It fits its variable. -/
theorem parseUint32_decimal (number : UInt32) : parseUint32 (decimal number.toNat) = number := by
  rw [parseUint32, decimal, fromChars_numeral (by decide) (by decide) number.toNat_lt,
    UInt32.ofNat_toNat]

/-! The header. -/

/-- What is counted is read as the name of the event and what follows. The
period itself is dropped. -/
theorem counted_read (f : HeaderFrame) {name tail : Text}
    (begins : name.head?.map isBlank = some false) (letters : ∀ c ∈ name, isNameByte c = true)
    (stops : ∀ c ∈ tail.head?, isNameByte c = false) :
    let s := skipSpaces (consumeDigits (skipSpaces
      (spaces (f.periodPad + 1) ++ f.counted (name ++ tail)))).2
    s.takeWhile isNameByte = name ∧ s.dropWhile isNameByte = tail := by
  intro s
  have skipped : skipSpaces (spaces (f.periodPad + 1) ++ f.counted (name ++ tail)) =
      f.counted (name ++ tail) := skipSpaces_numeral (by decide) (by decide) _ _ _
  have consumed : (consumeDigits (f.counted (name ++ tail))).2 =
      spaces (f.eventPad + 1) ++ (name ++ tail) :=
    congrArg Prod.snd (consumeDigits_decimal f.period _ (head_stops (by decide)))
  have unblank : skipSpaces (name ++ tail) = name ++ tail := by
    obtain ⟨c, head, unblank⟩ := Option.map_eq_some_iff.mp begins
    obtain ⟨more, rfl⟩ := List.head?_eq_some_iff.mp head
    exact skipSpaces_head (head_stops unblank)
  have whole : s = name ++ tail := by
    simp only [s, skipped, consumed, skipSpaces_spaces, unblank]
  rw [whole]
  exact takeWhile_digits letters tail stops

/-- The padding of the line is skipped. -/
theorem skipSpaces_header (f : HeaderFrame) (rest : Text) : skipSpaces (f.text rest) = f.owned rest :=
  skipSpaces_numeral (by decide) (by decide) _ _ _

/-- The header of an event is read back, up to the blank behind what follows its
name. -/
theorem parseHeader_frame (f : HeaderFrame) {name tail : Text}
    (begins : name.head?.map isBlank = some false) (letters : ∀ c ∈ name, isNameByte c = true)
    (stops : ∀ c ∈ tail.head?, isNameByte c = false) :
    parseHeader (f.text (name ++ tail)) = some ⟨f.pid, f.tid, f.timeNs, name,
      tail.dropWhile (fun c => c ≠ byte ' ')⟩ := by
  have pid : consumeDigits (f.owned (name ++ tail)) = (decimal f.pid.toNat, text "/" ++
      (decimal f.tid.toNat ++ (spaces (f.timePad + 1) ++ f.timed (name ++ tail)))) :=
    consumeDigits_decimal _ _ (head_stops (by decide))
  have tid := consumeDigits_decimal f.tid.toNat (spaces (f.timePad + 1) ++ f.timed (name ++ tail))
    (head_stops (by decide))
  have time : skipSpaces (spaces (f.timePad + 1) ++ f.timed (name ++ tail)) =
      f.timed (name ++ tail) := skipSpaces_numeral (by decide) (by decide) _ _ _
  have seconds : consumeDigits (f.timed (name ++ tail)) = (decimal (f.timeNs.toNat / 10 ^ 9),
      text "." ++ (padded 9 (f.timeNs.toNat % 10 ^ 9) ++
        (text ":" ++ (spaces (f.periodPad + 1) ++ f.counted (name ++ tail))))) :=
    consumeDigits_decimal _ _ (head_stops (by decide))
  have nanoseconds := consumeDigits_padded 9 (f.timeNs.toNat % 10 ^ 9)
    (text ":" ++ (spaces (f.periodPad + 1) ++ f.counted (name ++ tail))) (head_stops (by decide))
  obtain ⟨taken, dropped⟩ := counted_read f begins letters stops
  have slash : ∀ rest, (text "/" ++ rest).head? = some (byte '/') ∧
      (text "/" ++ rest).drop 1 = rest := fun _ => ⟨rfl, rfl⟩
  have dot : ∀ rest, (text "." ++ rest).head? = some (byte '.') ∧
      (text "." ++ rest).drop 1 = rest := fun _ => ⟨rfl, rfl⟩
  have colon : ∀ rest, (text ":" ++ rest).head? = some (byte ':') ∧
      (text ":" ++ rest).drop 1 = rest := fun _ => ⟨rfl, rfl⟩
  have nonempty : decimal f.pid.toNat ≠ [] := numeral_ne_nil 10 _
  simp only [parseHeader, skipSpaces_header, pid, slash, nonempty, false_or, ne_eq, not_true_eq_false,
    if_false, tid, time, seconds, dot, nanoseconds, colon, taken, dropped, parseUint32_decimal,
    parseTime_split]

/-- A header line does not report an error. Its first word begins with a digit. -/
theorem parseDecodeError_header (f : HeaderFrame) (rest : Text) :
    parseDecodeError (f.text rest) = none := by
  obtain ⟨c, more, whole, different⟩ := numeral_head (P := fun c => c ≠ byte 'i') 10
    (by decide) (by decide) (by decide) f.pid.toNat
    (text "/" ++ (decimal f.tid.toNat ++ (spaces (f.timePad + 1) ++ f.timed rest)))
  have apart : ¬ text "instruction trace error" <+: skipSpaces (f.text rest) := by
    rw [skipSpaces_header, HeaderFrame.owned, decimal, whole]
    intro begins
    exact different (List.cons_prefix_cons.mp begins).1.symm
  exact if_neg apart

/-- A header line is not empty and does not continue another line. The first
byte is a blank or a digit, but no tab. -/
theorem header_starts (f : HeaderFrame) (rest : Text) :
    f.text rest ≠ [] ∧ isContinuationLine (f.text rest) = false := by
  have starts : ∃ c more, f.text rest = c :: more ∧ c ≠ byte '\t' := by
    cases pad : f.linePad with
    | zero =>
      obtain ⟨c, more, whole, different⟩ := numeral_head (P := fun c => c ≠ byte '\t') 10
        (by decide) (by decide) (by decide) f.pid.toNat
        (text "/" ++ (decimal f.tid.toNat ++ (spaces (f.timePad + 1) ++ f.timed rest)))
      refine ⟨c, more, ?_, different⟩
      rw [← whole, HeaderFrame.text, pad]
      rfl
    | succ pad' =>
      refine ⟨byte ' ', spaces pad' ++ f.owned rest, ?_, by decide⟩
      rw [HeaderFrame.text, pad]
      rfl
  obtain ⟨c, more, whole, different⟩ := starts
  rw [whole]
  constructor
  · exact List.cons_ne_nil c more
  · apply decide_eq_false
    exact fun same => different (Option.some.inj same)

/-! Lines that start a group. -/

/-- Behind a flush nothing is accumulated. -/
theorem flushAccumulated_empties (p : PerfScriptParser) : (p.flushAccumulated).1 = {} := by
  obtain ⟨lines⟩ := p
  rw [flushAccumulated]
  split
  · next empty => rw [show lines = [] from empty]
  · rfl

/-- Nothing but the fed line is kept when the line starts a group. What was held
before is handed out at once. -/
theorem feedLine_starts (p : PerfScriptParser) {line : Text} (nonempty : line ≠ [])
    (starts : isContinuationLine line = false) :
    p.feedLine line = ({ accumulatedLines := [line] }, (p.flushAccumulated).2) := by
  rw [feedLine, if_neg nonempty, starts]
  simp only [flushAccumulated_empties]
  rfl

/-- A group is parsed when the next one starts. The line that starts it is not
looked at. -/
theorem feedLine_result (p : PerfScriptParser) {line : Text}
    (starts : isContinuationLine line = false) :
    (p.feedLine line).2 = (p.flushAccumulated).2 := by
  rw [feedLine, starts]
  split
  · rfl
  · rfl

end PerfScriptParser

end Tracey
