import Tracey.BranchLines

/-!
# Branches are read back

What lies between the header and the two ends of a branch: the arrow, the mark
of a transaction, the address of the source and the flags. The address is the
first run of hexadecimal digits between two spaces, because no flags contain
such a run. With the header and the ends, the whole line gives back its event.
-/

namespace Tracey

open Numerals TextSearch

namespace PerfScriptParser

/-! The arrow and the mark. -/

/-- The flags, the mark and the blanks before the source. The address comes
next. -/
def BranchFrame.flagged (f : BranchFrame) : Text :=
  f.flags.text ++ (f.mark ++ spaces (f.srcPad + 1))

/-- Before the arrow stand the flags and then the source. -/
theorem front_split (f : BranchFrame) (a : Label) : f.front a = f.flagged ++ f.source a := by
  simp [BranchFrame.front, BranchFrame.flagged]

/-- No flags contain a byte of an arrow or of a mark. The searches for these
pass over the flags. -/
theorem flags_plain (f : Flags) : byte '=' ∉ f.text ∧ byte '(' ∉ f.text ∧ byte ')' ∉ f.text := by
  obtain ⟨word, traceState, present⟩ := f
  revert word traceState
  decide

/-- No flags are empty or begin with a blank. Skipping blanks stops at them. -/
theorem flags_begin (f : Flags) : f.text.head?.map isBlank = some false := by
  obtain ⟨word, traceState, present⟩ := f
  revert word traceState
  decide

/-- No flags end with a space. So only the blanks behind them are removed. -/
theorem flags_trimmed (f : Flags) : trimSpaces f.text = f.text := by
  obtain ⟨word, traceState, present⟩ := f
  revert word traceState
  decide

/-- No flags contain what could be taken for an address. Some of their words
have letters that are hexadecimal digits, but none is made of these alone. -/
theorem flags_addrless (f : Flags) : findAddr (f.text ++ text " ") = none := by
  obtain ⟨word, traceState, present⟩ := f
  revert word traceState
  decide

/-- Flags are read back. All combinations that perf prints are read, one by one. -/
theorem parseKindAndTrace_text (f : Flags) :
    parseKindAndTrace f.text = ⟨f.word.map KindWord.kind, f.traceState⟩ := by
  obtain ⟨word, traceState, present⟩ := f
  revert word traceState
  decide

/-- The branch is found behind the blanks of the header. There may be any
number. -/
theorem skipSpaces_branch (f : BranchFrame) (a b : Label) (count : Nat) :
    skipSpaces (spaces count ++ f.branch a b) = f.branch a b := by
  have begins := flags_begin f.flags
  rw [skipSpaces_spaces, BranchFrame.branch, BranchFrame.front, List.append_assoc]
  cases whole : f.flags.text with
  | nil => simp [whole] at begins
  | cons c more =>
    rw [whole] at begins
    exact skipSpaces_head (head_stops (Option.some.inj begins))

/-- A mark consists of blanks and of a bracketed letter. There is no bracket
without a transaction. -/
theorem mem_mark {f : BranchFrame} {c : UInt8} (member : c ∈ f.mark) :
    c = byte ' ' ∨ (f.inTransaction = true ∧ c ∈ text "(x)") := by
  unfold BranchFrame.mark at member
  split at member
  · next marked =>
    rcases List.mem_append.mp member with blank | letter
    · exact Or.inl (mem_spaces blank)
    · exact Or.inr ⟨marked, letter⟩
  · cases member

/-- What is before the source consists of the flags, of blanks and of the mark. -/
theorem mem_flagged {f : BranchFrame} {c : UInt8} (member : c ∈ f.flagged) :
    c ∈ f.flags.text ∨ c = byte ' ' ∨ (f.inTransaction = true ∧ c ∈ text "(x)") := by
  rcases List.mem_append.mp member with flags | member
  · exact .inl flags
  · rcases List.mem_append.mp member with mark | blank
    · exact .inr (mem_mark mark)
    · exact .inr (.inl (mem_spaces blank))

/-- What is before the source has no byte of an arrow but blanks. An arrow needs
its sign. -/
theorem flagged_plain (f : BranchFrame) : byte '=' ∉ f.flagged := by
  intro member
  rcases mem_flagged member with flags | blank | ⟨_, letter⟩
  · exact (flags_plain f.flags).1 flags
  · exact absurd blank (by decide)
  · exact absurd letter (by decide)

/-- The arrow is found behind the source, and behind it the destination. The
source must not contain one, or it would be found first. -/
theorem find_arrow (f : BranchFrame) {a : Label} (b : Label)
    (noArrow : ¬ text " => " <:+: f.source a) :
    find (text " => ") (f.branch a b) = some (f.front a ++ spaces f.arrowPad).length := by
  let rest := spaces f.arrowPad ++ (text " => " ++ (spaces f.dstPad ++ f.destination b))
  let opened := numeral 16 f.srcIp.toNat ++ (spaces (f.srcNamePad + 1) ++ (a.name ++
    (spaces (f.srcDsoPad + 1) ++ (text "(" ++ a.dso))))
  have closed : f.source a = opened ++ text ")" := by
    simp [opened, BranchFrame.source, Label.text]
  have shape : f.branch a b = f.flagged ++ (opened ++ byte ')' :: rest) := by
    rw [BranchFrame.branch, front_split, closed, List.append_assoc, List.append_assoc]
    rfl
  have here : find (text " => ") (text " => " ++ (spaces f.dstPad ++ f.destination b)) = some 0 :=
    find_begins (List.prefix_append _ _)
  have padded : find (text " => ") rest = some f.arrowPad := by
    have absent : byte '=' ∉ spaces f.arrowPad := fun member =>
      absurd (mem_spaces member) (by decide)
    have blank : (text " => " ++ (spaces f.dstPad ++ f.destination b)).head? ≠ some (byte '=') :=
      fun same => absurd (Option.some.inj same) (by decide)
    have passed := find_skip_second (byte ' ') (text "> ") absent blank
    rw [show byte ' ' :: byte '=' :: text "> " = text " => " from rfl, here] at passed
    simpa [rest, spaces] using passed
  have sourced : find (text " => ") (opened ++ byte ')' :: rest) =
      some (f.arrowPad + (opened.length + 1)) := by
    have absent : ¬ text " => " <:+: opened ++ [byte ')'] := by
      have whole := noArrow
      rw [closed] at whole
      exact whole
    rw [find_skip_last absent (by decide), padded]
    rfl
  have addressed : (opened ++ byte ')' :: rest).head? ≠ some (byte '=') := by
    obtain ⟨c, more, whole, different⟩ := numeral_head (P := fun c => c ≠ byte '=') 16
      (by decide) (by decide) (by decide) f.srcIp.toNat (spaces (f.srcNamePad + 1) ++
        (a.name ++ (spaces (f.srcDsoPad + 1) ++ (text "(" ++ a.dso))) ++ byte ')' :: rest)
    rw [show opened ++ byte ')' :: rest = c :: more by rw [← whole]; simp [opened]]
    exact fun same => different (Option.some.inj same)
  have passed := find_skip_second (byte ' ') (text "> ") (flagged_plain f)
    addressed
  rw [show byte ' ' :: byte '=' :: text "> " = text " => " from rfl, sourced] at passed
  rw [shape, passed, front_split, closed]
  simp [spaces, text]
  omega

/-- The mark is found in a transaction, and where the source contains one
itself. -/
theorem find_mark (f : BranchFrame) (a : Label) :
    (find (text "(x)") (f.front a ++ spaces f.arrowPad)).isSome = true ↔
      f.inTransaction = true ∨ text "(x)" <:+: f.source a := by
  rw [find_isSome]
  constructor
  · intro inside
    by_cases marked : f.inTransaction = true
    · exact .inl marked
    · right
      have absent : byte '(' ∉ f.flagged := by
        intro member
        rcases mem_flagged member with flags | blank | ⟨found, _⟩
        · exact (flags_plain f.flags).2.1 flags
        · exact absurd blank (by decide)
        · exact marked found
      have foreign : ∀ c ∈ spaces f.arrowPad, c ∉ text "(x)" := by
        intro c member
        rw [mem_spaces member]
        decide
      rw [front_split, List.append_assoc] at inside
      exact infix_of_foreign (by decide) foreign (infix_of_skip absent inside)
  · have padded : f.front a <:+: f.front a ++ spaces f.arrowPad :=
      (List.prefix_append _ _).isInfix
    rintro (marked | inside)
    · have here : text "(x)" <:+: f.mark := by
        rw [BranchFrame.mark, if_pos marked]
        exact (List.suffix_append _ _).isInfix
      have front : f.mark <:+: f.front a :=
        ⟨f.flags.text, spaces (f.srcPad + 1) ++ f.source a, by simp [BranchFrame.front]⟩
      exact here.trans (front.trans padded)
    · have front : f.source a <:+: f.front a := by
        rw [front_split]
        exact (List.suffix_append _ _).isInfix
      exact inside.trans (front.trans padded)

/-! The address of the source. -/

/-- A run of digits ends before a space, whatever comes behind the space. Only
the run's own bytes and the space matter. -/
theorem run_ends (before tail : Text) :
    ((before ++ byte ' ' :: tail).dropWhile isLowerHex).head? =
      ((before ++ text " ").dropWhile isLowerHex).head? := by
  induction before with
  | nil => rfl
  | cons c rest inductionHypothesis =>
    rw [List.cons_append, List.cons_append, List.dropWhile_cons, List.dropWhile_cons]
    split
    · exact inductionHypothesis
    · rfl

/-- The search for the address goes on behind a space. A space is no digit. -/
theorem addrStartLoop_space (previous : UInt8) (i : Nat) (tail : Text) :
    addrStartLoop previous i (byte ' ' :: tail) = addrStartLoop (byte ' ') (i + 1) tail := by
  have blank : ¬ (previous = byte ' ' ∧ isLowerHex (byte ' ') = true ∧
      ((byte ' ' :: tail).dropWhile isLowerHex).head? = some (byte ' ')) :=
    fun found => absurd found.2.1 (by decide)
  exact if_neg blank

/-- The scan passes over what ends with a space and holds no address. What comes
behind the space cannot make an address of it. -/
theorem addrStartLoop_pass {previous : UInt8} {i : Nat} {before tail : Text}
    (addrless : addrStartLoop previous i (before ++ text " ") = none) :
    addrStartLoop previous i (before ++ byte ' ' :: tail) =
      addrStartLoop (byte ' ') (i + before.length + 1) tail := by
  induction before generalizing previous i with
  | nil => exact addrStartLoop_space previous i tail
  | cons c rest inductionHypothesis =>
    have ends := run_ends (c :: rest) tail
    rw [List.cons_append, List.cons_append] at ends
    rw [List.cons_append, addrStartLoop] at addrless
    rw [List.cons_append, addrStartLoop, ends]
    split at addrless
    · cases addrless
    · next apart =>
      rw [if_neg apart, inductionHypothesis addrless, List.length_cons]
      congr 1
      omega

/-- It goes on behind any number of them. -/
theorem addrStartLoop_spaces (i count : Nat) (tail : Text) :
    addrStartLoop (byte ' ') i (spaces count ++ tail) =
      addrStartLoop (byte ' ') (i + count) tail := by
  induction count generalizing i with
  | zero => rfl
  | succ count inductionHypothesis =>
    have shape : spaces (count + 1) ++ tail = byte ' ' :: (spaces count ++ tail) := rfl
    rw [shape, addrStartLoop_space, inductionHypothesis]
    congr 1
    omega

/-- An address between two spaces is found. It is found where it begins. -/
theorem addrStartLoop_numeral (i number : Nat) (tail : Text) :
    addrStartLoop (byte ' ') i (numeral 16 number ++ byte ' ' :: tail) = some i := by
  have digits : ∀ c ∈ numeral 16 number, isLowerHex c = true :=
    numeral_forall (P := fun c => isLowerHex c = true) (by decide) (by decide) (by decide) _
  obtain ⟨_, dropped⟩ := takeWhile_digits digits (byte ' ' :: tail)
    (head_stops (by decide))
  cases whole : numeral 16 number with
  | nil => exact absurd whole (numeral_ne_nil 16 number)
  | cons c more =>
    rw [whole] at digits dropped
    rw [List.cons_append] at dropped
    rw [List.cons_append, addrStartLoop, dropped]
    exact if_pos ⟨rfl, digits c List.mem_cons_self, rfl⟩

/-- Neither the flags nor the mark hold an address. The letter of the mark is no
hexadecimal digit. -/
theorem marked_addrless (f : BranchFrame) : findAddr (f.flags.text ++ f.mark ++ text " ") = none := by
  have addrless := flags_addrless f.flags
  have begins := flags_begin f.flags
  cases whole : f.flags.text with
  | nil => simp [whole] at begins
  | cons c more =>
    rw [whole, List.cons_append, findAddr] at addrless
    rw [List.cons_append, List.cons_append, findAddr, BranchFrame.mark]
    split
    · have shape : more ++ (spaces (f.markPad + 1) ++ text "(x)") ++ text " " =
          more ++ byte ' ' :: (spaces f.markPad ++ text "(x) ") := by
        simp [spaces, List.replicate_succ]
        rfl
      have letter : ∀ i, addrStartLoop (byte ' ') i (text "(x) ") = none := by
        intro i
        rfl
      rw [shape, addrStartLoop_pass addrless, addrStartLoop_spaces, letter]
    · rw [List.append_nil]
      exact addrless

/-- The address of the source is the first that is found. Nothing before it can
be taken for one. -/
theorem findAddr_front (f : BranchFrame) (a : Label) (count : Nat) :
    findAddr (f.front a ++ spaces count) = some f.flagged.length := by
  have addrless := marked_addrless f
  have begins := flags_begin f.flags
  have shape : f.front a ++ spaces count = f.flags.text ++ f.mark ++ byte ' ' :: (spaces f.srcPad ++
      (numeral 16 f.srcIp.toNat ++ byte ' ' :: (spaces f.srcNamePad ++ a.text f.srcDsoPad ++
        spaces count))) := by
    simp [BranchFrame.front, BranchFrame.source, spaces, List.replicate_succ]
  have length : f.flagged.length = (f.flags.text ++ f.mark).length + 1 + f.srcPad := by
    simp [BranchFrame.flagged, spaces]
    omega
  rw [shape, length]
  cases whole : f.flags.text ++ f.mark with
  | nil =>
    rw [(List.append_eq_nil_iff.mp whole).1] at begins
    cases begins
  | cons c more =>
    rw [whole, List.cons_append, findAddr] at addrless
    rw [List.cons_append, findAddr, addrStartLoop_pass addrless, addrStartLoop_spaces,
      addrStartLoop_numeral, List.length_cons]
    congr 1
    omega

/-! The flags. -/

/-- Trailing spaces are removed, however many there are. -/
theorem trimSpaces_spaces (before : Text) (count : Nat) :
    trimSpaces (before ++ spaces count) = trimSpaces before := by
  induction count with
  | zero => rw [spaces, List.replicate_zero, List.append_nil]
  | succ count inductionHypothesis =>
    rw [spaces, List.replicate_succ', ← List.append_assoc, trimSpaces,
      List.rdropWhile_concat_pos _ _ _ (by decide)]
    exact inductionHypothesis

/-- The blanks and the mark behind the flags are removed. Blanks between the two
are removed with them. -/
theorem trimKind_flagged (f : BranchFrame) : trimKind f.flagged = f.flags.text := by
  have trimmed := flags_trimmed f.flags
  rw [BranchFrame.flagged, ← List.append_assoc, trimKind, trimSpaces_spaces, BranchFrame.mark]
  split
  · have bracket : trimSpaces (f.flags.text ++ (spaces (f.markPad + 1) ++ text "(x)")) =
        f.flags.text ++ spaces (f.markPad + 1) ++ text "(x)" := by
      have shape : f.flags.text ++ (spaces (f.markPad + 1) ++ text "(x)") =
          f.flags.text ++ (spaces (f.markPad + 1) ++ text "(x") ++ [byte ')'] := by
        simp
        rfl
      rw [shape, trimSpaces, List.rdropWhile_concat_neg _ _ _ (by decide), ← shape,
        List.append_assoc]
    have marked : text "(x)" <:+ f.flags.text ++ spaces (f.markPad + 1) ++ text "(x)" :=
      List.suffix_append _ _
    have length : (f.flags.text ++ spaces (f.markPad + 1) ++ text "(x)").length - 3 =
        (f.flags.text ++ spaces (f.markPad + 1)).length := by
      rw [List.length_append]
      exact Nat.add_sub_cancel _ 3
    rw [bracket]
    simp only [marked, if_true, length, List.take_left, trimSpaces_spaces, trimmed]
  · have unmarked : ¬ text "(x)" <:+ f.flags.text := by
      intro ends
      exact (flags_plain f.flags).2.1 (ends.subset (by decide))
    rw [List.append_nil, trimmed]
    exact if_neg unmarked

/-! The branch, the event and the line. -/

/-- What the parser makes of a branch with any labels. The mark is looked for in
the labels as well. -/
theorem parseBranch_frame (f : BranchFrame) {a : Label} (b : Label)
    (noArrow : ¬ text " => " <:+: f.source a) (count : Nat) :
    parseBranch (spaces count ++ f.branch a b) = some
      { kind := f.flags.word.map KindWord.kind
        traceState := f.flags.traceState
        inTransaction := (find (text "(x)") (f.front a ++ spaces f.arrowPad)).isSome
        src := parseSource (f.source a ++ spaces f.arrowPad)
        dst := parseDestination (spaces f.dstPad ++ f.destination b) } := by
  have shape : f.branch a b = f.front a ++ spaces f.arrowPad ++
      (text " => " ++ (spaces f.dstPad ++ f.destination b)) := by simp [BranchFrame.branch]
  have before : (f.branch a b).take (f.front a ++ spaces f.arrowPad).length =
      f.front a ++ spaces f.arrowPad := by
    rw [shape]
    exact List.take_left
  have after : (f.branch a b).drop ((f.front a ++ spaces f.arrowPad).length + 4) =
      spaces f.dstPad ++ f.destination b := by
    rw [shape, ← List.drop_drop, List.drop_left]
    rfl
  have flagged : (f.front a ++ spaces f.arrowPad).take f.flagged.length = f.flagged := by
    rw [front_split, List.append_assoc]
    exact List.take_left
  have source : (f.front a ++ spaces f.arrowPad).drop f.flagged.length =
      f.source a ++ spaces f.arrowPad := by
    rw [front_split, List.append_assoc]
    exact List.drop_left
  simp only [parseBranch, skipSpaces_branch, find_arrow f b noArrow, before, findAddr_front,
    flagged, source, after, trimKind_flagged, parseKindAndTrace_text]

/-- The line with its labels is parsed as its branch. Lines below it are not
looked at. -/
theorem parseGroup_frame (f : BranchFrame) (a b : Label) (below : List Text) :
    parseGroup (f.text a b :: below) =
      (parseBranch (spaces (f.flagsPad + 1) ++ f.branch a b)).map (fun data =>
        .ok { pid := f.pid, tid := f.tid, timeNs := f.timeNs, data := .branch data }) := by
  simp only [parseGroup, parseDecodeError_text, parseHeader_text, parseData, if_true,
    Option.map_map]
  rfl

/-- A printed branch is read back, whatever blanks stand before it. The address
is found behind the flags, since no word of theirs is one. -/
theorem parseBranch_text (l : BranchLine) (count : Nat) :
    parseBranch (spaces count ++ l.branch) = some l.data := by
  have noArrow : ¬ text " => " <:+: l.frame.source l.src.texts := l.noArrow
  have parsed := parseBranch_frame l.frame l.dst.texts noArrow count
  have mark : (find (text "(x)") (l.frame.front l.src.texts ++ spaces l.frame.arrowPad)).isSome =
      l.inTransaction := by
    rw [Bool.eq_iff_iff, find_mark]
    constructor
    · rintro (marked | inside)
      · exact marked
      · exact absurd inside l.noMark
    · exact fun marked => .inl marked
  have source := parseSource_text l.src l.arrowPad
  have destination := parseDestination_text l.dst l.dstPad
  rw [mark] at parsed
  refine parsed.trans (congrArg some ?_)
  rw [BranchLine.data, ← source, ← destination]
  rfl

/-- The lines below a branch line do not matter. Each part of it has been read
back before. -/
theorem parseGroup_text (l : BranchLine) (below : List Text) :
    parseGroup (l.text :: below) = some l.event := by
  have branch : l.frame.branch l.src.texts l.dst.texts = l.branch := rfl
  rw [BranchLine.text_frame, parseGroup_frame, branch, parseBranch_text]
  rfl

/-- A branch line is not empty and does not continue another line. A group
begins with it. -/
theorem text_starts (f : BranchFrame) (a b : Label) :
    f.text a b ≠ [] ∧ isContinuationLine (f.text a b) = false := header_starts f.header _

/-- A printed branch is read back: a fresh parser holds its line, and the event
comes out, with every field as it went in, at the end of the input, at an empty
line or at the next line that starts an event. -/
theorem branch_round_trips (p : PerfScriptParser) (l : BranchLine) :
    let fed := (p.feedLine l.text).1
    (({} : PerfScriptParser).feedLine l.text).2 = none ∧
      fed.finish = ({}, some l.event) ∧
      ∀ next : Text, isContinuationLine next = false → (fed.feedLine next).2 = some l.event := by
  obtain ⟨nonempty, starts⟩ := text_starts l.frame l.src.texts l.dst.texts
  rw [← BranchLine.text_frame] at nonempty starts
  have flushed : ({ accumulatedLines := [l.text] } : PerfScriptParser).flushAccumulated =
      ({}, some l.event) := by
    rw [flushAccumulated, if_neg (List.cons_ne_nil _ _), parseGroup_text]
  refine ⟨?_, ?_, ?_⟩
  · rw [feedLine_starts _ nonempty starts]
    rfl
  · rw [feedLine_starts p nonempty starts]
    exact flushed
  · intro next starts'
    rw [feedLine_starts p nonempty starts, feedLine_result _ starts', flushed]

/-- A call as the tests spell it. It has the addresses and the blanks of the
test. -/
def callLine : BranchLine where
  pid := 25375
  tid := 25375
  timeNs := 4509191343298468
  period := 1
  selector := text "uH"
  selectorPlain := by decide
  flags := ⟨some .call, .none, by decide⟩
  inTransaction := false
  src :=
    { ip := 0x7f6fce0b71f4
      name := .known (text "__clock_gettime") 0x24 (by decide) (head_stops (by decide))
      dso := text "foo.so"
      dsoPlain := by decide
      namePad := 0
      dsoPad := 0 }
  dst :=
    { ip := 0x7ffd193838e0
      name := .known (text "__vdso_clock_gettime") 0 (by decide) (head_stops (by decide))
      dso := text "foo.so"
      dsoPlain := by decide
      namePad := 0
      dsoPad := 0 }
  noArrow := by decide
  noMark := by decide
  linePad := 0
  timePad := 0
  periodPad := 11
  eventPad := 2
  flagsPad := 2
  markPad := 0
  srcPad := 20
  arrowPad := 0
  dstPad := 4

/-- The line of the tests, spelled out. -/
example : callLine.text = text ("25375/25375 4509191.343298468:            1   branches:uH:   " ++
    "call                     7f6fce0b71f4 __clock_gettime+0x24 " ++
    "(foo.so) =>     7ffd193838e0 __vdso_clock_gettime+0x0 (foo.so)") := by decide +kernel

/-- The line of the tests is read as a call at an offset of 36 bytes. -/
theorem branch_round_trips_call :
    (((({} : PerfScriptParser).feedLine callLine.text).1).feedLine []).2 = some callLine.event ∧
      callLine.data.kind = some .call ∧ callLine.data.src.symbolOffset = 36 :=
  ⟨(branch_round_trips {} callLine).2.2 [] (by decide), rfl, rfl⟩

end PerfScriptParser

end Tracey
