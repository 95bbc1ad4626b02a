import Tracey.BracketWord
import Tracey.ShortenSymbol
import Tracey.TextSearch

/-!
# The scan for a parameter list

The second pass of `shorten_symbol` is a fold over the bytes of a symbol, which
can be followed stretch by stretch. A stretch without brackets changes nothing
but the position, and so does one in curly brackets when the brackets in it
match: the depth stays above zero inside, where parentheses do not count.

What balanced means for a text is said by the walk over its brackets.
-/

namespace Tracey

open BracketWord TextSearch

/-- The kinds of brackets. Angle brackets are told apart from the others by the
passes over a name. -/
inductive Bracket where
  | round
  | square
  | curly
  | angle
deriving DecidableEq, Repr

/-- The bracket that a byte is. The sign `>` is one also where it is part of an
arrow. -/
def bracketMark (c : UInt8) : Option (Mark Bracket) :=
  if c = byte '(' then some (.opening .round)
  else if c = byte ')' then some (.closing .round)
  else if c = byte '[' then some (.opening .square)
  else if c = byte ']' then some (.closing .square)
  else if c = byte '{' then some (.opening .curly)
  else if c = byte '}' then some (.closing .curly)
  else if c = byte '<' then some (.opening .angle)
  else if c = byte '>' then some (.closing .angle)
  else none

/-- The brackets of a text that are of some kinds. All other bytes are left out. -/
def brackets (kinds : List Bracket) (s : Text) : List (Mark Bracket) :=
  (s.filterMap bracketMark).filter (fun mark => mark.name ∈ kinds)

/-- The brackets of these kinds match. Brackets of other kinds may stand
anywhere. -/
def BalancedIn (kinds : List Bracket) (s : Text) : Prop := walk [] (brackets kinds s) = some []

/-- Whether brackets match can be computed. -/
instance (kinds : List Bracket) (s : Text) : Decidable (BalancedIn kinds s) :=
  inferInstanceAs (Decidable (_ = _))

/-- A text without brackets of these kinds. Brackets of other kinds may be in
it. -/
def FreeOf (kinds : List Bracket) (s : Text) : Prop :=
  ∀ c ∈ s, ∀ mark ∈ bracketMark c, mark.name ∉ kinds

/-- A text without any brackets. -/
def Unbracketed (s : Text) : Prop := ∀ c ∈ s, bracketMark c = none

/-- Whether a text is free of some brackets can be computed. -/
instance (kinds : List Bracket) (s : Text) : Decidable (FreeOf kinds s) :=
  decidable_of_iff (s.all (fun c => (bracketMark c).all (fun mark => mark.name ∉ kinds)) = true)
    (by
      rw [List.all_eq_true]
      refine forall₂_congr (fun c _ => ?_)
      cases bracketMark c <;> simp)

/-- Whether a text has no brackets can be computed. -/
instance (s : Text) : Decidable (Unbracketed s) :=
  decidable_of_iff (s.all (fun c => (bracketMark c).isNone) = true) (by simp [Unbracketed])

/-- No bracket of these kinds is a byte of the text. It need not be an opening
one. -/
theorem FreeOf.absent {kinds : List Bracket} {s : Text} (free : FreeOf kinds s) {c : UInt8}
    {mark : Mark Bracket} (is : bracketMark c = some mark) (among : mark.name ∈ kinds) : c ∉ s :=
  fun member => free c member mark is among

/-- A text without brackets is free of those of any kind. -/
theorem Unbracketed.free {s : Text} (unbracketed : Unbracketed s) (kinds : List Bracket) :
    FreeOf kinds s := by
  intro c member mark is
  rw [unbracketed c member] at is
  cases is

/-- A bracket of another kind may come first. It is not looked at where these
kinds are counted. -/
theorem FreeOf.bracket {kinds : List Bracket} {c : UInt8} {mark : Mark Bracket} {s : Text}
    (is : bracketMark c = some mark) (apart : mark.name ∉ kinds) (free : FreeOf kinds s) :
    FreeOf kinds (c :: s) := by
  intro d member other found
  rcases List.mem_cons.mp member with rfl | later
  · rw [is] at found
    exact Option.some.inj found ▸ apart
  · exact free d later other found

/-- Texts free of some brackets are so together. -/
theorem FreeOf.append {kinds : List Bracket} {s t : Text} (first : FreeOf kinds s)
    (second : FreeOf kinds t) : FreeOf kinds (s ++ t) := by
  intro c member
  exact (List.mem_append.mp member).elim (first c) (second c)

/-- Texts without brackets are so together. -/
theorem Unbracketed.append {s t : Text} (first : Unbracketed s) (second : Unbracketed t) :
    Unbracketed (s ++ t) := by
  intro c member
  exact (List.mem_append.mp member).elim (first c) (second c)

/-- A text that is free of some kinds of brackets is free of fewer. So a
statement about all kinds serves for each. -/
theorem FreeOf.mono {kinds fewer : List Bracket} {s : Text} (free : FreeOf kinds s)
    (included : ∀ kind ∈ fewer, kind ∈ kinds) : FreeOf fewer s :=
  fun c member mark is among => free c member mark is (included _ among)

/-- The brackets in a text are those of its parts. -/
theorem brackets_append (kinds : List Bracket) (s t : Text) :
    brackets kinds (s ++ t) = brackets kinds s ++ brackets kinds t := by
  rw [brackets, List.filterMap_append, List.filter_append]
  rfl

/-- A text that is free of some brackets shows none of them. -/
theorem FreeOf.brackets_eq {kinds : List Bracket} {s : Text} (free : FreeOf kinds s) :
    brackets kinds s = [] := by
  rw [brackets, List.filter_eq_nil_iff]
  intro mark member
  obtain ⟨c, inside, is⟩ := List.mem_filterMap.mp member
  simpa using free c inside mark is

/-- A byte that is no such bracket is passed over. -/
theorem brackets_other {kinds : List Bracket} {c : UInt8}
    (missing : ∀ mark ∈ bracketMark c, mark.name ∉ kinds) (rest : Text) :
    brackets kinds (c :: rest) = brackets kinds rest := by
  have free : FreeOf kinds [c] := fun d member => List.mem_singleton.mp member ▸ missing
  rw [← List.singleton_append, brackets_append, free.brackets_eq, List.nil_append]

/-- Brackets that match still match between texts without such brackets. The
whole still counts as one text. -/
theorem BalancedIn.between {kinds : List Bracket} {s before after : Text}
    (balanced : BalancedIn kinds s) (front : FreeOf kinds before) (back : FreeOf kinds after) :
    BalancedIn kinds (before ++ (s ++ after)) := by
  rw [BalancedIn, brackets_append, brackets_append, front.brackets_eq, back.brackets_eq,
    List.nil_append, List.append_nil]
  exact balanced

/-- Brackets that match still match when some kinds are left out. The marks that
are left still close each other. -/
theorem BalancedIn.mono {kinds fewer : List Bracket} {s : Text} (balanced : BalancedIn kinds s)
    (included : ∀ kind ∈ fewer, kind ∈ kinds) : BalancedIn fewer s := by
  have filtered := walk_filter (fun kind => decide (kind ∈ fewer)) balanced
  rw [brackets, List.filter_filter] at filtered
  have same : ∀ mark : Mark Bracket,
      (decide (mark.name ∈ fewer) && decide (mark.name ∈ kinds)) = decide (mark.name ∈ fewer) := by
    intro mark
    by_cases member : mark.name ∈ fewer
    · simp [member, included _ member]
    · simp [member]
  simp only [same] at filtered
  exact filtered

namespace ShortenSymbol

/-- A position follows `operator` if the text before it ends so. The word is not
looked for as a word: `myoperator` ends so, too. -/
theorem precededByOperator_iff (s : Text) :
    precededByOperator s = true ↔ text "operator" <:+ s := by
  rw [precededByOperator, List.suffix_iff_eq_drop, Bool.and_eq_true, decide_eq_true_iff, beq_iff_eq]
  constructor
  · rintro ⟨-, ends⟩
    exact ends.symm
  · intro ends
    have length := congrArg List.length ends
    rw [List.length_drop] at length
    change 8 = s.length - (s.length - 8) at length
    exact ⟨by omega, ends.symm⟩

/-- What is before a byte that is not in the word does not matter. Brackets and
blanks are such bytes. -/
theorem precededByOperator_behind {before after : Text} {c : UInt8} (foreign : c ∉ text "operator") :
    precededByOperator (before ++ c :: after) = precededByOperator after := by
  rw [Bool.eq_iff_iff, precededByOperator_iff, precededByOperator_iff]
  constructor
  · exact suffix_of_foreign foreign
  · intro ends
    exact ends.trans ((List.suffix_cons c after).trans (List.suffix_append before _))

/-- Where the scan is: what it has passed, in how many curly and square
brackets, and where the last parenthesis opened that counts. -/
structure Scan where
  before : Text := []
  depth : Int := 0
  lastOpen : Option Nat := none
deriving DecidableEq, Repr

namespace Scan

/-- Pass one byte. It is what a turn of the loop does, with the text that was
passed kept whole. -/
def step (s : Scan) (c : UInt8) : Scan where
  before := s.before ++ [c]
  depth :=
    if c = byte '{' ∨ c = byte '[' then s.depth + 1
    else if c = byte '}' ∨ c = byte ']' then s.depth - 1
    else s.depth
  lastOpen :=
    if c = byte '(' ∧ s.depth = 0 ∧ precededByOperator s.before = false then some s.before.length
    else s.lastOpen

/-- An opening parenthesis. It counts outside all brackets, and only if it does
not follow `operator`. -/
theorem step_round (s : Scan) : s.step (byte '(') = ⟨s.before ++ [byte '('], s.depth,
    if s.depth = 0 ∧ precededByOperator s.before = false then some s.before.length
    else s.lastOpen⟩ := by
  simp only [step, true_and]
  rfl

/-- An opening bracket that counts makes the scan one deeper. A parenthesis in
it does not count. -/
theorem step_opens (s : Scan) {c : UInt8} (opens : c = byte '{' ∨ c = byte '[') :
    s.step c = ⟨s.before ++ [c], s.depth + 1, s.lastOpen⟩ := by
  rcases opens with rfl | rfl <;> rfl

/-- A closing one makes it one shallower, even below 0, since the code does not
look whether anything is open. -/
theorem step_closes (s : Scan) {c : UInt8} (closes : c = byte '}' ∨ c = byte ']') :
    s.step c = ⟨s.before ++ [c], s.depth - 1, s.lastOpen⟩ := by
  rcases closes with rfl | rfl <;> rfl

/-- Any other byte changes nothing but the position. -/
theorem step_stays (s : Scan) {c : UInt8} (opens : ¬ (c = byte '{' ∨ c = byte '['))
    (closes : ¬ (c = byte '}' ∨ c = byte ']'))
    (uncounted : ¬ (c = byte '(' ∧ s.depth = 0 ∧ precededByOperator s.before = false)) :
    s.step c = { s with before := s.before ++ [c] } := by
  rw [step, if_neg opens, if_neg closes, if_neg uncounted]

/-- Pass a text. The scan goes on from where it is. -/
def run (s : Scan) (t : Text) : Scan := t.foldl step s

/-- Scanning two texts in a row is scanning the second in the state that the
first leaves. -/
theorem run_append (s : Scan) (t u : Text) : s.run (t ++ u) = (s.run t).run u := List.foldl_append

/-- The scan knows what it has passed. It looks back on it for the word
`operator`. -/
theorem run_before (s : Scan) (t : Text) : (s.run t).before = s.before ++ t := by
  induction t generalizing s with
  | nil => exact (List.append_nil _).symm
  | cons c rest inductionHypothesis =>
    have later := inductionHypothesis (s.step c)
    rw [step, List.append_assoc] at later
    exact later

end Scan

/-- Passing over the closing parenthesis of a call operator changes nothing. The
loop has no position of its own to move. -/
theorem lastOpenLoop_skip (before : Text) (depth : Int) (lastOpen : Option Nat) (rest : Text) :
    lastOpenLoop before depth lastOpen true (byte ')' :: rest) =
      lastOpenLoop before depth lastOpen false (byte ')' :: rest) := rfl

/-- The loop is the scan. The flag for the closing parenthesis makes no
difference, since this byte changes nothing. -/
theorem lastOpenLoop_run (s : Scan) (t : Text) :
    lastOpenLoop s.before s.depth s.lastOpen false t = (s.run t).lastOpen := by
  induction t generalizing s with
  | nil => rfl
  | cons c rest inductionHypothesis =>
    have later := inductionHypothesis (s.step c)
    rw [lastOpenLoop, if_neg Bool.false_ne_true]
    refine Eq.trans ?_ later
    by_cases opens : c = byte '{' ∨ c = byte '['
    · rw [if_pos opens, s.step_opens opens]
    by_cases closes : c = byte '}' ∨ c = byte ']'
    · rw [if_neg opens, if_pos closes, s.step_closes closes]
    rw [if_neg opens, if_neg closes]
    by_cases level : c = byte '(' ∧ s.depth = 0
    -- Skipping the other parenthesis of a call operator makes no difference.
    · have stepped : s.step c = ⟨s.before ++ [c], s.depth,
          if precededByOperator s.before = false then some s.before.length else s.lastOpen⟩ := by
        rw [level.1, Scan.step_round]
        simp only [level.2, true_and]
      rw [stepped, if_pos level]
      cases precededByOperator s.before with
      | true =>
        rw [if_pos rfl, if_neg (Bool.noConfusion : ¬ true = false)]
        split
        · next call =>
          obtain ⟨others, rfl⟩ := List.head?_eq_some_iff.mp call
          exact lastOpenLoop_skip _ _ _ _
        · rfl
      | false => rw [if_neg Bool.false_ne_true, if_pos rfl]
    · have skipped : ¬ (c = byte '(' ∧ s.depth = 0 ∧ precededByOperator s.before = false) :=
        fun counts => level ⟨counts.1, counts.2.1⟩
      rw [if_neg level, s.step_stays opens closes skipped]

/-- What is left of a symbol, by its scan. It is cut at the last parenthesis
that counts. -/
theorem stripParameters_run (sym : Text) :
    stripParameters sym = match (({} : Scan).run sym).lastOpen with
      | some lastOpen => sym.take lastOpen
      | none => sym := by
  have scanned := lastOpenLoop_run {} sym
  rw [← scanned]
  rfl

/-- A front of a symbol is left if the last parenthesis that counts opens behind
it. -/
theorem stripParameters_front (front rest : Text) (more : rest ≠ []) :
    stripParameters (front ++ rest) = front ↔
      (({} : Scan).run (front ++ rest)).lastOpen = some front.length := by
  have longer := List.length_pos_iff.mpr more
  rw [stripParameters_run]
  cases (({} : Scan).run (front ++ rest)).lastOpen with
  | none => simp [more]
  | some place =>
    dsimp only
    constructor
    · intro left
      have length := congrArg List.length left
      rw [List.length_take, List.length_append] at length
      exact congrArg some (by omega)
    · intro here
      rw [Option.some.inj here, List.take_left]

/-- Everything is left if no parenthesis counts. A parenthesis that counts is
cut off at least. -/
theorem stripParameters_whole {sym : Text}
    (within : ∀ place ∈ (({} : Scan).run sym).lastOpen, place < sym.length) :
    stripParameters sym = sym ↔ (({} : Scan).run sym).lastOpen = none := by
  rw [stripParameters_run]
  cases found : (({} : Scan).run sym).lastOpen with
  | none => simp
  | some place =>
    have bound := within place found
    dsimp only
    constructor
    · intro left
      have length := congrArg List.length left
      rw [List.length_take] at length
      omega
    · intro same
      cases same

namespace Scan

/-- A byte other than the brackets that the scan counts and the parenthesis that
it looks for only moves the position. -/
theorem step_other (s : Scan) {c : UInt8} (round : c ≠ byte '(')
    (free : ∀ mark ∈ bracketMark c, mark.name ∉ [Bracket.square, Bracket.curly]) :
    s.step c = { s with before := s.before ++ [c] } := by
  have opens : ¬ (c = byte '{' ∨ c = byte '[') := by
    rintro (rfl | rfl) <;> exact free _ rfl (by decide)
  have closes : ¬ (c = byte '}' ∨ c = byte ']') := by
    rintro (rfl | rfl) <;> exact free _ rfl (by decide)
  exact s.step_stays opens closes (fun counts => round counts.1)

/-- A stretch of such bytes only moves the position. It has nothing that counts. -/
theorem run_other (s : Scan) {t : Text} (round : byte '(' ∉ t)
    (free : FreeOf [.square, .curly] t) : s.run t = { s with before := s.before ++ t } := by
  induction t generalizing s with
  | nil => simp [run]
  | cons c rest inductionHypothesis =>
    have first := s.step_other (fun same => round (same ▸ List.mem_cons_self))
      (free c List.mem_cons_self)
    have others := inductionHypothesis (s.step c) (List.not_mem_of_not_mem_cons round)
      (fun d member => free d (List.mem_cons_of_mem c member))
    change (s.step c).run rest = _
    rw [others, first, List.append_assoc]
    rfl

/-- A stretch without brackets only moves the position. -/
theorem run_unbracketed (s : Scan) {t : Text} (unbracketed : Unbracketed t) :
    s.run t = { s with before := s.before ++ t } :=
  s.run_other ((unbracketed.free [.round]).absent (by rfl) (by decide)) (unbracketed.free _)

/-- A recorded parenthesis lies in what is passed. A later one replaces it. -/
theorem run_lastOpen (s : Scan) (t : Text) :
    (s.run t).lastOpen = s.lastOpen ∨
      ∃ place, s.before.length ≤ place ∧ (s.run t).lastOpen = some place := by
  induction t generalizing s with
  | nil => exact .inl rfl
  | cons c rest inductionHypothesis =>
    rcases inductionHypothesis (s.step c) with same | ⟨place, behind, found⟩
    · by_cases counts : c = byte '(' ∧ s.depth = 0 ∧ precededByOperator s.before = false
      · exact .inr ⟨s.before.length, Nat.le_refl _, same.trans (if_pos counts)⟩
      · exact .inl (same.trans (if_neg counts))
    · refine .inr ⟨place, ?_, found⟩
      rw [step, List.length_append] at behind
      omega

/-- If a recorded parenthesis lies in what is passed, so does the last one. The
cut is therefore within the text. -/
theorem run_known (s : Scan) (known : ∀ place ∈ s.lastOpen, place < s.before.length) (t : Text) :
    ∀ place ∈ (s.run t).lastOpen, place < (s.run t).before.length := by
  induction t generalizing s with
  | nil => exact known
  | cons c rest inductionHypothesis =>
    apply inductionHypothesis (s.step c)
    intro place found
    rw [step, List.length_append, List.length_singleton]
    by_cases counts : c = byte '(' ∧ s.depth = 0 ∧ precededByOperator s.before = false
    · have here : (s.step c).lastOpen = some s.before.length := if_pos counts
      rw [here] at found
      rw [← Option.some.inj found]
      exact Nat.lt_succ_self _
    · have kept : (s.step c).lastOpen = s.lastOpen := if_neg counts
      rw [kept] at found
      exact Nat.lt_succ_of_lt (known place found)

end Scan

/-- Every parenthesis that opens in a text stands directly behind `operator`.
The text before it may end with a part of the word. -/
def OnlyOperators (before t : Text) : Prop :=
  ∀ front back, t = front ++ byte '(' :: back → precededByOperator (before ++ front) = true

/-- With one byte more, only operators have parentheses if this held before, and
if the byte, in case it opens one, stands behind the word. -/
theorem onlyOperators_concat (before t : Text) (c : UInt8) :
    OnlyOperators before (t ++ [c]) ↔
      OnlyOperators before t ∧ (c = byte '(' → precededByOperator (before ++ t) = true) := by
  constructor
  · intro only
    constructor
    · rintro front back rfl
      exact only front (back ++ [c]) (by simp)
    · rintro rfl
      exact only t [] rfl
  · rintro ⟨only, last⟩ front back split
    rcases List.eq_nil_or_concat' back with rfl | ⟨others, d, rfl⟩
    · obtain ⟨rfl, same⟩ := List.append_inj' split rfl
      exact last (List.singleton_inj.mp same)
    · have shorter : t ++ [c] = (front ++ byte '(' :: others) ++ [d] := by simp [split]
      exact only front others (List.append_inj' shorter rfl).1

/-- What is before a byte that is not in the word does not matter. -/
theorem onlyOperators_behind (before : Text) {c : UInt8} (foreign : c ∉ text "operator")
    (t : Text) : OnlyOperators (before ++ [c]) t ↔ OnlyOperators [] t := by
  have same : ∀ front, precededByOperator (before ++ [c] ++ front) = precededByOperator front := by
    intro front
    rw [List.append_assoc]
    exact precededByOperator_behind foreign
  simp only [OnlyOperators, same, List.nil_append]

/-- In no curly or square brackets, and meeting none, the scan keeps the
parenthesis that counts exactly if all those on the way stand behind `operator`. -/
theorem Scan.run_level (s : Scan) {t : Text} (level : s.depth = 0)
    (free : FreeOf [.square, .curly] t)
    (known : ∀ place ∈ s.lastOpen, place < s.before.length) :
    (s.run t).depth = 0 ∧ ((s.run t).lastOpen = s.lastOpen ↔ OnlyOperators s.before t) := by
  induction t using List.reverseRecOn with
  | nil =>
    refine ⟨level, iff_of_true rfl ?_⟩
    intro front back split
    cases front <;> cases split
  | append_singleton front c inductionHypothesis =>
    obtain ⟨depth, kept⟩ := inductionHypothesis
      (fun d member => free d (List.mem_append_left _ member))
    have last := free c (List.mem_append_right _ List.mem_cons_self)
    rw [run_append, onlyOperators_concat]
    change ((s.run front).step c).depth = 0 ∧ (((s.run front).step c).lastOpen = s.lastOpen ↔ _)
    by_cases round : c = byte '('
    · rw [round, step_round, run_before]
      refine ⟨depth, ?_⟩
      simp only [depth, true_and, forall_const]
      cases precededByOperator (s.before ++ front) with
      | true => simp [kept]
      | false =>
        -- This parenthesis counts, and it lies behind all that was known at the start.
        refine iff_of_false ?_ (fun both => absurd both.2 Bool.false_ne_true)
        intro same
        have bound := known _ same.symm
        rw [List.length_append] at bound
        omega
    · rw [step_other _ round last]
      exact ⟨depth, kept.trans (by simp [round])⟩

/-! Stretches in curly or square brackets. -/

/-- The brackets that the scan counts. Round and angle brackets are not among
them. -/
def counted (t : Text) : List (Mark Bracket) := brackets [.square, .curly] t

/-- An opening curly or square bracket counts as one. -/
theorem counted_opening {c : UInt8} (opens : c = byte '{' ∨ c = byte '[') (rest : Text) :
    ∃ kind, counted (c :: rest) = .opening kind :: counted rest := by
  rcases opens with rfl | rfl
  · exact ⟨.curly, rfl⟩
  · exact ⟨.square, rfl⟩

/-- A closing curly or square bracket counts as one. -/
theorem counted_closing {c : UInt8} (closes : c = byte '}' ∨ c = byte ']') (rest : Text) :
    ∃ kind, counted (c :: rest) = .closing kind :: counted rest := by
  rcases closes with rfl | rfl
  · exact ⟨.curly, rfl⟩
  · exact ⟨.square, rfl⟩

/-- Nothing else counts. A parenthesis makes the scan no deeper. -/
theorem counted_other {c : UInt8} (opens : ¬ (c = byte '{' ∨ c = byte '['))
    (closes : ¬ (c = byte '}' ∨ c = byte ']')) (rest : Text) :
    counted (c :: rest) = counted rest := by
  have missing : ∀ mark ∈ bracketMark c, mark.name ∉ [Bracket.square, Bracket.curly] := by
    rw [not_or] at opens closes
    simp only [bracketMark, opens, closes, if_false]
    split_ifs <;> simp [Mark.name]
  exact brackets_other missing rest

/-- In curly or square brackets no parenthesis counts, as long as the brackets
in there match: the depth is that of the brackets open around. -/
theorem Scan.run_inside {opened closed : List Bracket} (s : Scan) {t : Text}
    (deep : s.depth = opened.length + 1) (walked : walk opened (counted t) = some closed) :
    s.run t = ⟨s.before ++ t, closed.length + 1, s.lastOpen⟩ := by
  induction t generalizing s opened with
  | nil =>
    rw [← Option.some.inj walked, ← deep, List.append_nil]
    rfl
  | cons c rest inductionHypothesis =>
    change (s.step c).run rest = _
    have unlevel : ¬ (c = byte '(' ∧ s.depth = 0 ∧ precededByOperator s.before = false) := by
      rintro ⟨-, level, -⟩
      omega
    have passed : s.before ++ c :: rest = s.before ++ [c] ++ rest := List.append_cons _ _ _
    by_cases opens : c = byte '{' ∨ c = byte '['
    · obtain ⟨kind, shown⟩ := counted_opening opens rest
      rw [shown, walk_opening] at walked
      rw [s.step_opens opens, passed]
      refine inductionHypothesis _ ?_ walked
      rw [List.length_append, List.length_singleton, deep]
      rfl
    by_cases closes : c = byte '}' ∨ c = byte ']'
    · obtain ⟨kind, shown⟩ := counted_closing closes rest
      rw [shown] at walked
      obtain ⟨middle, popped, continued⟩ := walk_closing_split walked
      rw [s.step_closes closes, passed]
      refine inductionHypothesis _ ?_ continued
      rw [walk_closing_some popped, List.length_append, List.length_singleton] at deep
      change s.depth - 1 = _
      omega
    · rw [counted_other opens closes] at walked
      rw [s.step_stays opens closes unlevel, passed]
      exact inductionHypothesis _ deep walked

/-- A stretch in curly brackets only moves the position. Parentheses in it need
not match. -/
theorem Scan.run_enclosed (s : Scan) {inner : Text} (level : s.depth = 0)
    (balanced : BalancedIn [.square, .curly] inner) :
    s.run (byte '{' :: (inner ++ [byte '}'])) =
      { s with before := s.before ++ byte '{' :: (inner ++ [byte '}']) } := by
  have entered : s.step (byte '{') = ⟨s.before ++ [byte '{'], 1, s.lastOpen⟩ := by
    rw [step, level]
    rfl
  have inside := run_inside (s.step (byte '{')) (by rw [entered]; rfl) balanced
  change (s.step (byte '{')).run (inner ++ [byte '}']) = _
  rw [run_append, inside, entered]
  change step _ (byte '}') = _
  rw [step, level]
  simp only [List.append_assoc]
  rfl

end ShortenSymbol

end Tracey
