import Tracey.BranchLines

/-!
# Decode errors are read back

perf script reports a decode error in one line, of words with numbers behind
them and a message. Every field is found by a search of its own over the whole
line. No word contains another's, and no number contains a letter or a blank, so
each search passes over the fields in front of its own; the message comes last,
where only the search for a time that is not there would reach it.
-/

namespace Tracey

open Numerals TextSearch

namespace PerfScriptParser

/-- A line for a decode error. Its time and its address may be missing, and its
message may be any text; without a time it must not contain the label of one. -/
structure ErrorLine where
  type : Int
  time : Option UInt64
  cpu : Int
  pid : Int32
  tid : Int32
  ip : Option UInt64
  code : Int
  message : Text
  timeless : time = none → ¬ text "time " <:+: message

namespace ErrorLine

/-- The time as it is printed, if there is one. The label belongs to it. -/
def timeText (l : ErrorLine) : Text :=
  match l.time with
  | some time => Tracey.text " time " ++
      (decimal (time.toNat / 10 ^ 9) ++ (Tracey.text "." ++ padded 9 (time.toNat % 10 ^ 9)))
  | none => []

/-- The address as it is printed; without one perf prints 0. Any other address
has the prefix `0x`. -/
def ipText (l : ErrorLine) : Text :=
  match l.ip with
  | some ip => Tracey.text "0x" ++ numeral 16 ip.toNat
  | none => Tracey.text "0"

/-- The code and the message. The message goes on to the end of the line. -/
def coded (l : ErrorLine) : Text :=
  Tracey.text "code " ++ (signed l.code ++ (Tracey.text ": " ++ l.message))

/-- The address and what is behind it. The code comes next. -/
def addressed (l : ErrorLine) : Text :=
  Tracey.text " ip " ++ (l.ipText ++ (Tracey.text " " ++ l.coded))

/-- The thread and what is behind it. Its number may be negative. -/
def threaded (l : ErrorLine) : Text :=
  Tracey.text " tid " ++ (signed l.tid.toInt ++ l.addressed)

/-- The process and what is behind it. -/
def owned (l : ErrorLine) : Text := Tracey.text " pid " ++ (signed l.pid.toInt ++ l.threaded)

/-- The processor and what is behind it. -/
def placed (l : ErrorLine) : Text := Tracey.text " cpu " ++ (signed l.cpu ++ l.owned)

/-- What is printed but for the blank in front. It begins with the words by
which an error is recognized. -/
def report (l : ErrorLine) : Text :=
  Tracey.text "instruction trace error type " ++ (signed l.type ++ (l.timeText ++ l.placed))

/-- The line as perf script prints it. The blank is skipped when it is read. -/
def text (l : ErrorLine) : Text := Tracey.text " " ++ l.report

/-- The error the line stands for. The type, the processor and the code are not
kept. -/
def error (l : ErrorLine) : DecodeError where
  pid := l.pid.toUInt32
  tid := l.tid.toUInt32
  timeNs := l.time
  ip := l.ip
  message := l.message

end ErrorLine

/-! Searches. -/

/-- What follows a label is what is found behind its own length. The parser
takes it from there. -/
theorem behind_found (label s : Text) : behind label s = (found label s).map (·.drop label.length) := by
  rw [behind, found, Option.map_map]
  congr 1
  funext position
  exact (List.drop_drop).symm

/-- A byte that no number is printed with. Labels are made of these. -/
def isWordByte (c : UInt8) : Bool := !(isDigit 10 c) && c ≠ byte '-' && c ≠ byte '.'

/-- A search passes over a word that does not contain the label, and the number
behind it. -/
theorem found_field {label word number : Text} (rest : Text) (absent : ¬ label <:+: word)
    (letters : ∀ c ∈ label, isWordByte c = true) (nonempty : number ≠ [])
    (digits : ∀ c ∈ number, isWordByte c = false) :
    found label (word ++ (number ++ rest)) = found label rest := by
  have foreign : ∀ c ∈ number, c ∉ label := by
    intro c inside member
    exact absurd ((digits c inside).symm.trans (letters c member)) Bool.false_ne_true
  have passed := find_skip_foreign absent nonempty foreign rest
  rw [← List.append_assoc]
  exact found_pass passed

/-- A label that consists of letters is not found in a number, and so not before
it. -/
theorem found_signed {label word : Text} (number : Int) (rest : Text) (absent : ¬ label <:+: word)
    (letters : ∀ c ∈ label, isWordByte c = true) :
    found label (word ++ (signed number ++ rest)) = found label rest :=
  found_field rest absent letters (signed_ne_nil number)
    (signed_forall (P := fun c => isWordByte c = false) (by decide) (by decide) number)

/-- A search finds a label behind a blank. The label must not begin with a blank
itself. -/
theorem found_blank {label : Text} (begins : label.head?.map isBlank = some false) (rest : Text) :
    found label (text " " ++ (label ++ rest)) = some (label ++ rest) := by
  obtain ⟨c, head, unblank⟩ := Option.map_eq_some_iff.mp begins
  obtain ⟨more, rfl⟩ := List.head?_eq_some_iff.mp head
  have absent : c ∉ text " " := by
    intro member
    rw [List.mem_singleton.mp member] at unblank
    exact absurd unblank (by decide)
  rw [found_pass (find_skip more _ absent), found_begins (List.prefix_append _ _)]

/-- What does not occur is not found. -/
theorem found_none {label s : Text} (absent : ¬ label <:+: s) : found label s = none := by
  rw [← find_isSome, Bool.not_eq_true, Option.isSome_eq_false_iff, Option.isNone_iff_eq_none] at absent
  rw [found, absent]
  rfl

/-- What is read behind a label that is found. Nothing of the rest is lost. -/
theorem behind_label {label s rest : Text} (here : found label s = some (label ++ rest)) :
    behind label s = some rest := by
  rw [behind_found, here, Option.map_some, List.drop_left]

/-- Digits are no part of a word. -/
theorem digit_wordless {c : UInt8} (digit : isDigit 10 c = true) : isWordByte c = false := by
  rw [isWordByte, digit]
  rfl

/-- A search for anything but the time passes over the time. Its digits cannot
be part of a label. -/
theorem found_time (l : ErrorLine) {label : Text} (rest : Text) (absent : ¬ label <:+: text " time ")
    (letters : ∀ c ∈ label, isWordByte c = true) :
    found label (l.timeText ++ rest) = found label rest := by
  unfold ErrorLine.timeText
  split
  · next time printed =>
    rw [List.append_assoc]
    refine found_field rest absent letters ?_ ?_
    · exact List.append_ne_nil_of_left_ne_nil (numeral_ne_nil 10 _) _
    · intro c member
      simp only [List.mem_append] at member
      rcases member with second | dot | nanosecond
      · exact digit_wordless (numeral_isDigit (by decide) (by decide) _ c second)
      · rw [List.mem_singleton.mp dot]
        decide
      · exact digit_wordless (padded_isDigit 9 _ c nanosecond)
  · rfl

/-- What is searched for behind the processor. They are looked for from the
front all the same. -/
def threadLabels : List Text := [text "pid ", text "tid ", text "ip ", text "code "]

/-- Neither these labels nor that of the time have a byte of a number. So a
number is never taken for a part of a label. -/
theorem label_letters :
    ∀ label ∈ text "time " :: threadLabels, ∀ c ∈ label, isWordByte c = true := by
  have all : (text "time " :: threadLabels).all (fun label => label.all isWordByte) = true := by
    decide
  exact fun label member => List.all_eq_true.mp (List.all_eq_true.mp all label member)

/-- The searches for them pass over what is in front of the process. The words
before it contain none of them. -/
theorem found_owned (l : ErrorLine) {label : Text} (searched : label ∈ threadLabels) :
    found label l.report = found label l.owned := by
  have letters := label_letters label (List.mem_cons_of_mem _ searched)
  have words : ∀ label ∈ threadLabels, ¬ label <:+: text "instruction trace error type " ∧
      ¬ label <:+: text " time " ∧ ¬ label <:+: text " cpu " := by decide
  obtain ⟨type, time, cpu⟩ := words label searched
  rw [ErrorLine.report, found_signed _ _ type letters, found_time l _ time letters,
    ErrorLine.placed, found_signed _ _ cpu letters]

/-- The other searches pass over the process and the thread. The numbers may be
negative. -/
theorem found_addressed (l : ErrorLine) {label : Text}
    (searched : label ∈ [text "time ", text "ip ", text "code "]) :
    found label l.owned = found label l.addressed := by
  have among : ∀ label ∈ [text "time ", text "ip ", text "code "],
      label ∈ text "time " :: threadLabels := by decide
  have letters := label_letters label (among label searched)
  have words : ∀ label ∈ [text "time ", text "ip ", text "code "],
      ¬ label <:+: text " pid " ∧ ¬ label <:+: text " tid " := by decide
  obtain ⟨pid, tid⟩ := words label searched
  rw [ErrorLine.owned, found_signed _ _ pid letters, ErrorLine.threaded,
    found_signed _ _ tid letters]

/-! Fields. -/

/-- A signed number of 32 bits is read back. The minus sign is the only byte in
front of its digits. -/
theorem parseInt32_signed (number : Int32) {rest : Text}
    (stops : ∀ c ∈ rest.head?, isDigit 10 c = false) :
    parseInt32 (signed number.toInt ++ rest) = number := by
  have least := number.le_toInt
  have most := number.toInt_lt
  rw [parseInt32, fromCharsSigned_signed least most stops, Int32.ofInt_toInt]

/-- Behind the label of the process stands its number. The next label stands
behind it. -/
theorem behind_pid (l : ErrorLine) :
    behind (text "pid ") l.report = some (signed l.pid.toInt ++ l.threaded) := by
  apply behind_label
  rw [found_owned l (.head _)]
  exact found_blank (by decide) _

/-- Behind the label of the thread stands its number. -/
theorem behind_tid (l : ErrorLine) :
    behind (text "tid ") l.report = some (signed l.tid.toInt ++ l.addressed) := by
  have searched : text "tid " ∈ threadLabels := .tail _ (.head _)
  have letters := label_letters _ (List.mem_cons_of_mem _ searched)
  have apart : ¬ text "tid " <:+: text " pid " := by decide
  apply behind_label
  rw [found_owned l searched, ErrorLine.owned, found_signed _ _ apart letters]
  exact found_blank (by decide) _

/-- Behind the label of the address stands the address. -/
theorem behind_ip (l : ErrorLine) :
    behind (text "ip ") l.report = some (l.ipText ++ (text " " ++ l.coded)) := by
  apply behind_label
  rw [found_owned l (.tail _ (.tail _ (.head _))), found_addressed l (.tail _ (.head _))]
  exact found_blank (by decide) _

/-- No address is printed with a letter of a word but for those of its digits.
The letter of the prefix is one more. -/
theorem ipText_forall {P : UInt8 → Prop} (digits : ∀ digit < 16, P (digitByte digit))
    (marker : P (byte 'x')) (l : ErrorLine) : ∀ c ∈ l.ipText, P c := by
  intro c member
  have zero := digits 0 (by decide)
  unfold ErrorLine.ipText at member
  split at member
  · next ip printed =>
    rcases List.mem_append.mp member with mark | digit
    · rcases List.mem_pair.mp mark with rfl | rfl
      · exact zero
      · exact marker
    · exact numeral_forall (by decide) (by decide) digits _ c digit
  · rw [List.mem_singleton.mp member]
    exact zero

/-- The code is found behind the address: a numeral has no `o`. So the address
cannot hide it. -/
theorem found_code (l : ErrorLine) : found (text "code ") l.report = some l.coded := by
  have addressed : byte 'o' ∉ text " ip " ++ (l.ipText ++ text " ") := by
    intro member
    simp only [List.mem_append] at member
    rcases member with word | address | blank
    · exact absurd word (by decide)
    · exact ipText_forall (P := fun c => c ≠ byte 'o') (by decide) (by decide) l _ address rfl
    · exact absurd blank (by decide)
  have soon : byte 'o' ∉ l.coded.take (text "c").length := by
    intro member
    exact absurd (List.mem_singleton.mp member) (by decide)
  have passed := found_pass (find_pass (text "de ") addressed soon)
  rw [found_owned l (.tail _ (.tail _ (.tail _ (.head _)))),
    found_addressed l (.tail _ (.tail _ (.head _)))]
  rw [List.append_assoc, List.append_assoc] at passed
  refine passed.trans (found_begins (List.prefix_append _ _))

/-- The message is read back: it is looked for behind the code, so that a colon
before does no harm. -/
theorem parseErrorMessage_report (l : ErrorLine) : parseErrorMessage l.report = l.message := by
  have code := found_code l
  obtain ⟨position, here, dropped⟩ := Option.map_eq_some_iff.mp code
  have absent : byte ':' ∉ text "code " ++ signed l.code := by
    intro member
    rcases List.mem_append.mp member with word | digit
    · exact absurd word (by decide)
    · exact signed_forall (P := fun c => c ≠ byte ':') (by decide) (by decide) l.code _ digit rfl
  have message : behind (text ": ") l.coded = some l.message := by
    apply behind_label
    rw [ErrorLine.coded, ← List.append_assoc]
    exact (found_pass (find_skip (text " ") _ absent)).trans (found_begins (List.prefix_append _ _))
  rw [parseErrorMessage, here]
  simp only [dropped, message, Option.getD_some]

/-- Without a time, no words of its own make up for it: none has an `m`. The
message has none by assumption. -/
theorem found_time_none (l : ErrorLine) (untold : l.time = none) :
    found (text "time ") l.report = .none := by
  have letters := label_letters (text "time ") (.head _)
  have type : ¬ text "time " <:+: text "instruction trace error type " := by decide
  have cpu : ¬ text "time " <:+: text " cpu " := by decide
  have untimed : l.timeText = [] := by rw [ErrorLine.timeText, untold]
  have front : byte 'm' ∉ text " ip " ++ (l.ipText ++ (text " code " ++ signed l.code)) := by
    intro member
    simp only [List.mem_append] at member
    rcases member with word | address | word | digit
    · exact absurd word (by decide)
    · exact ipText_forall (P := fun c => c ≠ byte 'm') (by decide) (by decide) l _ address rfl
    · exact absurd word (by decide)
    · exact signed_forall (P := fun c => c ≠ byte 'm') (by decide) (by decide) l.code _ digit rfl
  have soon : byte 'm' ∉ (text ": " ++ l.message).take (text "ti").length := by
    intro member
    rcases List.mem_pair.mp member with colon | blank
    · exact absurd colon (by decide)
    · exact absurd blank (by decide)
  have passed := found_pass (find_pass (text "e ") front soon)
  have colon : byte 't' ∉ text ": " := by decide
  have message := found_pass (find_skip (text "ime ") l.message colon)
  have shape : l.addressed = text " ip " ++ (l.ipText ++ (text " code " ++ signed l.code)) ++
      (text ": " ++ l.message) := by
    have word : text " code " = text " " ++ text "code " := by decide
    rw [ErrorLine.addressed, ErrorLine.coded, word]
    simp only [List.append_assoc]
  rw [ErrorLine.report, found_signed _ _ type letters, untimed, List.nil_append, ErrorLine.placed,
    found_signed _ _ cpu letters, found_addressed l (.head _), shape]
  exact passed.trans (message.trans (found_none (l.timeless untold)))

/-- The time is read back, or there is none. In the second case the message has
no label for it. -/
theorem parseErrorTime_report (l : ErrorLine) : parseErrorTime l.report = l.time := by
  cases printed : l.time with
  | none =>
    rw [parseErrorTime, behind_found, found_time_none l printed]
    rfl
  | some time =>
    have letters := label_letters (text "time ") (.head _)
    have type : ¬ text "time " <:+: text "instruction trace error type " := by decide
    have timed : l.timeText ++ l.placed = text " " ++ (text "time " ++ (decimal (time.toNat / 10 ^ 9) ++
        (text "." ++ (padded 9 (time.toNat % 10 ^ 9) ++ l.placed)))) := by
      have word : text " time " = text " " ++ text "time " := by decide
      rw [ErrorLine.timeText, printed]
      simp only [word, List.append_assoc]
    have here : behind (text "time ") l.report = some (decimal (time.toNat / 10 ^ 9) ++
        (text "." ++ (padded 9 (time.toNat % 10 ^ 9) ++ l.placed))) := by
      apply behind_label
      rw [ErrorLine.report, found_signed _ _ type letters, timed]
      exact found_blank (by decide) _
    have seconds := consumeDigits_decimal (time.toNat / 10 ^ 9)
      (text "." ++ (padded 9 (time.toNat % 10 ^ 9) ++ l.placed)) (head_stops (by decide))
    have nanoseconds := consumeDigits_padded 9 (time.toNat % 10 ^ 9) l.placed (head_stops (by decide))
    have dot : ∀ rest, (text "." ++ rest).head? = some (byte '.') ∧
        (text "." ++ rest).drop 1 = rest := fun _ => ⟨rfl, rfl⟩
    rw [parseErrorTime, here]
    simp only [Option.bind_some, seconds, dot, if_true, nanoseconds, parseTime_split]

/-- The address is read back. Address 0 is none, in the source as well as here. -/
theorem parseErrorIp_report (l : ErrorLine) :
    (behind (text "ip ") l.report).bind (fun i =>
      if firstWord i = text "0" then none else some (parseHex64 (firstWord i))) = l.ip := by
  have unbroken : byte ' ' ∉ l.ipText := fun member =>
    ipText_forall (P := fun c => c ≠ byte ' ') (by decide) (by decide) l _ member rfl
  have word : firstWord (l.ipText ++ (text " " ++ l.coded)) = l.ipText := firstWord_append unbroken
  rw [behind_ip, Option.bind_some, word, ErrorLine.ipText]
  cases l.ip with
  | none => rfl
  | some ip =>
    have longer : text "0x" ++ numeral 16 ip.toNat ≠ text "0" := by
      intro same
      exact absurd (congrArg List.length same) (by simp [text])
    rw [if_neg longer, parseHex64_prefixed ip.toNat_lt, UInt64.ofNat_toNat]

/-- A line for a decode error is parsed as its error. Every part is found by its
own label. -/
theorem parseDecodeError_report (l : ErrorLine) : parseDecodeError l.text = some l.error := by
  have begins : skipSpaces l.text = l.report := by
    have blank := skipSpaces_spaces 1 l.report
    exact blank.trans (skipSpaces_head (head_stops (by decide)))
  have reported : text "instruction trace error" <+: l.report := by
    have front : text "instruction trace error" <+: text "instruction trace error type " := by
      decide
    exact front.trans (List.prefix_append _ _)
  have pid : parseInt32 (signed l.pid.toInt ++ l.threaded) = l.pid :=
    parseInt32_signed l.pid (head_stops (by decide))
  have tid : parseInt32 (signed l.tid.toInt ++ l.addressed) = l.tid :=
    parseInt32_signed l.tid (head_stops (by decide))
  rw [parseDecodeError, begins]
  simp only [reported, if_true, parseErrorTime_report, behind_pid, behind_tid, Option.map_some,
    Option.getD_some, pid, tid, parseErrorIp_report, parseErrorMessage_report]
  rfl

/-- A printed decode error is read back, with every field as it went in: a fresh
parser holds its line, and the error comes out at the end of the input, at an
empty line or at the next line that starts an event. -/
theorem error_round_trips (p : PerfScriptParser) (l : ErrorLine) :
    let fed := (p.feedLine l.text).1
    parseDecodeError l.text = some l.error ∧
      fed.finish = ({}, some (.decodeError l.error)) ∧
      ∀ next, isContinuationLine next = false →
        (fed.feedLine next).2 = some (.decodeError l.error) := by
  have parsed := parseDecodeError_report l
  have nonempty : l.text ≠ [] := List.cons_ne_nil _ _
  have starts : isContinuationLine l.text = false := by
    apply decide_eq_false
    exact fun same => absurd (Option.some.inj same) (by decide)
  have flushed : ({ accumulatedLines := [l.text] } : PerfScriptParser).flushAccumulated =
      ({}, some (.decodeError l.error)) := by
    rw [flushAccumulated, if_neg (List.cons_ne_nil _ _), parseGroup, parsed]
  refine ⟨parsed, ?_, ?_⟩
  · rw [feedLine_starts p nonempty starts]
    exact flushed
  · intro next starts'
    rw [feedLine_starts p nonempty starts, feedLine_result _ starts', flushed]

/-- The error of the tests. -/
def overflowLine : ErrorLine where
  type := 1
  time := some 47170086912826
  cpu := -1
  pid := 293415
  tid := 293415
  ip := some 0x7ffff7327730
  code := 7
  message := text "Overflow packet"
  timeless := by decide

/-- The report of the tests, spelled out. -/
example : overflowLine.text = text (" instruction trace error type 1 time 47170.086912826 " ++
    "cpu -1 pid 293415 tid 293415 ip 0x7ffff7327730 code 7: Overflow packet") := by decide +kernel

/-- The error of the tests is read at the empty line behind it. -/
theorem error_round_trips_overflow :
    (((({} : PerfScriptParser).feedLine overflowLine.text).1).feedLine []).2 =
      some (.decodeError overflowLine.error) :=
  (error_round_trips {} overflowLine).2.2 [] (by decide)

end PerfScriptParser

end Tracey
