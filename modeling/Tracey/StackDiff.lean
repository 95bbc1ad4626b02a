import Tracey.BracketWord

/-!
# The difference of two stacks

A stack is turned into another one by closing what lies above their longest
common prefix, from the top, and opening what the other has there. No bracket
word that leads from the one stack to the other is shorter.

A position of an opening mark in a growing word identifies what it opened for
good. By these positions a name that is open before the difference is still the
same one after it exactly when it lies in the common prefix.
-/

namespace Tracey.BracketWord

variable {α : Type*}

/-- Every bracket word is as long as it has marks of both kinds. -/
theorem length_marks (marks : List (Mark α)) : marks.length = closings marks + openings marks := by
  induction marks with
  | nil => rfl
  | cons mark rest inductionHypothesis =>
    cases mark with
    | opening name =>
      rw [closings_opening, openings_opening, List.length_cons, inductionHypothesis]
      omega
    | closing name =>
      rw [closings_closing, openings_closing, List.length_cons, inductionHypothesis]
      omega

/-- The positions of the opening marks that are unmatched, after some marks with
open positions. -/
def unmatched : Nat → List Nat → List (Mark α) → List Nat
  | _, opened, [] => opened
  | count, opened, .opening _ :: rest => unmatched (count + 1) (opened ++ [count]) rest
  | count, opened, .closing _ :: rest => unmatched (count + 1) opened.dropLast rest

/-- What is unmatched in a word is unmatched in its second part, seen from
behind the first. -/
theorem unmatched_append (count : Nat) (opened : List Nat) (before after : List (Mark α)) :
    unmatched count opened (before ++ after) =
      unmatched (count + before.length) (unmatched count opened before) after := by
  induction before generalizing count opened with
  | nil => rfl
  | cons mark rest inductionHypothesis =>
    have next : count + (mark :: rest).length = count + 1 + rest.length := by
      rw [List.length_cons]
      omega
    rw [next]
    cases mark with
    | opening name => exact inductionHypothesis (count + 1) (opened ++ [count])
    | closing name => exact inductionHypothesis (count + 1) opened.dropLast

/-- Open positions lie in the word so far. The count is the position at which
the word begins. -/
theorem unmatched_lt (count : Nat) {opened : List Nat} (marks : List (Mark α))
    (past : ∀ position ∈ opened, position < count) :
    ∀ position ∈ unmatched count opened marks, position < count + marks.length := by
  induction marks generalizing count opened with
  | nil => exact past
  | cons mark rest inductionHypothesis =>
    have next : count + (mark :: rest).length = count + 1 + rest.length := by
      rw [List.length_cons]
      omega
    rw [next]
    cases mark with
    | opening name =>
      apply inductionHypothesis
      intro position member
      rcases List.mem_append.mp member with old | new
      · exact Nat.lt_succ_of_lt (past position old)
      · rw [List.mem_singleton.mp new]
        exact Nat.lt_succ_self count
    | closing name =>
      apply inductionHypothesis
      intro position member
      exact Nat.lt_succ_of_lt (past position (List.mem_of_mem_dropLast member))

/-- Closing names removes as many positions from the top. If there are more
names than positions, none is left. -/
theorem unmatched_closings (count : Nat) (opened : List Nat) (names : List α) :
    unmatched count opened (names.map .closing) = opened.take (opened.length - names.length) := by
  induction names generalizing count opened with
  | nil => simp [unmatched]
  | cons name rest inductionHypothesis =>
    rw [List.map_cons, unmatched, inductionHypothesis, List.dropLast_eq_take, List.take_take,
      List.length_take, List.length_cons]
    congr 1
    omega

/-- Opening names adds positions from where the word has got to. They are those
of the names, in order. -/
theorem unmatched_openings (count : Nat) (opened : List Nat) (names : List α) :
    ∃ fresh, unmatched count opened (names.map .opening) = opened ++ fresh ∧
      ∀ position ∈ fresh, count ≤ position := by
  induction names generalizing count opened with
  | nil => exact ⟨[], (List.append_nil _).symm, by intro position member; cases member⟩
  | cons name rest inductionHypothesis =>
    obtain ⟨fresh, whole, later⟩ := inductionHypothesis (count + 1) (opened ++ [count])
    refine ⟨count :: fresh, ?_, ?_⟩
    · rw [List.map_cons, unmatched, whole, List.append_assoc]
      rfl
    · intro position member
      rcases List.mem_cons.mp member with rfl | others
      · exact Nat.le_refl _
      · exact Nat.le_of_succ_le (later position others)

section Difference

variable [DecidableEq α]

/-- The length of the longest common prefix of two lists. Elements behind the
first difference do not count, even if they are equal again. -/
def agreement : List α → List α → Nat
  | first :: firsts, second :: seconds =>
    if first = second then agreement firsts seconds + 1 else 0
  | _, _ => 0

/-- Two lists agree on no more than the shorter one has. -/
theorem agreement_le (first second : List α) :
    agreement first second ≤ first.length ∧ agreement first second ≤ second.length := by
  induction first generalizing second with
  | nil => exact ⟨Nat.le_refl _, Nat.zero_le _⟩
  | cons name rest inductionHypothesis =>
    cases second with
    | nil => exact ⟨Nat.zero_le _, Nat.le_refl _⟩
    | cons other others =>
      obtain ⟨left, right⟩ := inductionHypothesis others
      rw [agreement]
      split
      · exact ⟨Nat.succ_le_succ left, Nat.succ_le_succ right⟩
      · exact ⟨Nat.zero_le _, Nat.zero_le _⟩

/-- Two lists agree on a number of first elements up to their agreement only.
The common prefix is therefore as long as possible. -/
theorem take_eq_take_iff (first second : List α) {count : Nat} (left : count ≤ first.length)
    (right : count ≤ second.length) :
    first.take count = second.take count ↔ count ≤ agreement first second := by
  induction first generalizing second count with
  | nil =>
    rw [Nat.le_zero.mp left]
    exact ⟨fun _ => Nat.zero_le _, fun _ => rfl⟩
  | cons name rest inductionHypothesis =>
    cases count with
    | zero => exact ⟨fun _ => Nat.zero_le _, fun _ => rfl⟩
    | succ count =>
      cases second with
      | nil => exact absurd right (Nat.not_succ_le_zero count)
      | cons other others =>
        have tails := inductionHypothesis others (Nat.le_of_succ_le_succ left)
          (Nat.le_of_succ_le_succ right)
        rw [List.take_succ_cons, List.take_succ_cons, List.cons.injEq, tails, agreement]
        by_cases same : name = other
        · rw [if_pos same, Nat.succ_le_succ_iff]
          exact and_iff_right same
        · rw [if_neg same]
          exact ⟨fun both => absurd both.1 same, fun less => absurd less (Nat.not_succ_le_zero _)⟩

/-- Up to where two lists agree, they have the same items. -/
theorem take_agreement (first second : List α) :
    first.take (agreement first second) = second.take (agreement first second) := by
  obtain ⟨left, right⟩ := agreement_le first second
  exact (take_eq_take_iff first second left right).mpr (Nat.le_refl _)

/-- A depth lies in the common prefix when the lists agree up to it. A depth
beyond either list lies in no common prefix. -/
theorem lt_agreement_iff (first second : List α) (depth : Nat) :
    depth < agreement first second ↔ depth < first.length ∧ depth < second.length ∧
      first.take (depth + 1) = second.take (depth + 1) := by
  obtain ⟨left, right⟩ := agreement_le first second
  constructor
  · intro inside
    refine ⟨by omega, by omega, ?_⟩
    exact (take_eq_take_iff first second (by omega) (by omega)).mpr inside
  · rintro ⟨before, within, same⟩
    exact (take_eq_take_iff first second before within).mp same

/-- The marks that turn one stack into another. It closes what is above the
common prefix, from the top, and then opens what is new. -/
def difference (first second : List α) : List (Mark α) :=
  (first.drop (agreement first second)).reverse.map .closing ++
    (second.drop (agreement first second)).map .opening

/-- Closing the names on top, from the last one. The others are not touched. -/
theorem walk_closings (kept gone : List α) :
    walk (kept ++ gone) (gone.reverse.map .closing) = some kept := by
  induction gone using List.reverseRecOn with
  | nil => rw [List.append_nil]; rfl
  | append_singleton below top inductionHypothesis =>
    rw [List.reverse_concat, List.map_cons, ← List.append_assoc, walk_closing_top]
    exact inductionHypothesis

/-- Over openings alone everything is opened, in order. -/
theorem walk_openings (opened names : List α) :
    walk opened (names.map .opening) = some (opened ++ names) := by
  induction names generalizing opened with
  | nil => rw [List.append_nil]; rfl
  | cons name rest inductionHypothesis =>
    rw [List.map_cons, walk_opening, inductionHypothesis, List.append_assoc]
    rfl

/-- The difference leads from the one stack to the other. The common prefix
stays open all the way. -/
theorem walk_difference (first second : List α) :
    walk first (difference first second) = some second := by
  have closed := walk_closings (first.take (agreement first second))
    (first.drop (agreement first second))
  rw [List.take_append_drop, take_agreement] at closed
  apply walk_trans closed
  rw [walk_openings, List.take_append_drop]

/-- Whatever leads from one stack to another keeps at most a common prefix.

Induct over the marks; what is kept is the lowest that the stack gets. -/
theorem walk_keeps {first second : List α} {marks : List (Mark α)}
    (walked : walk first marks = some second) :
    ∃ count, count ≤ first.length ∧ count ≤ second.length ∧
      first.take count = second.take count ∧ first.length ≤ count + closings marks ∧
      second.length ≤ count + openings marks := by
  induction marks generalizing first with
  | nil =>
    obtain rfl := Option.some.inj walked
    exact ⟨first.length, Nat.le_refl _, Nat.le_refl _, rfl, Nat.le_refl _, Nat.le_refl _⟩
  | cons mark rest inductionHypothesis =>
    cases mark with
    | opening name =>
      obtain ⟨count, left, right, same, closed, opened⟩ := inductionHypothesis walked
      rw [List.length_append, List.length_singleton] at left closed
      rw [closings_opening, openings_opening]
      by_cases inside : count ≤ first.length
      · rw [List.take_append_of_le_length inside] at same
        exact ⟨count, inside, right, same, by omega, by omega⟩
      · obtain rfl : count = first.length + 1 := by omega
        refine ⟨first.length, Nat.le_refl _, by omega, ?_, by omega, by omega⟩
        have shorter := congrArg (List.take first.length) same
        rwa [List.take_take, List.take_take, Nat.min_eq_left (Nat.le_succ _),
          List.take_append_of_le_length (Nat.le_refl _)] at shorter
    | closing name =>
      obtain ⟨middle, popped, continued⟩ := walk_closing_split walked
      obtain rfl := walk_closing_some popped
      obtain ⟨count, left, right, same, closed, opened⟩ := inductionHypothesis continued
      rw [closings_closing, openings_closing, List.length_append, List.length_singleton]
      refine ⟨count, by omega, right, ?_, by omega, opened⟩
      rw [List.take_append_of_le_length left, same]

/-- The difference is a shortest word that leads from the one stack to the
other. -/
theorem difference_least (first second : List α) :
    IsLeast {length | ∃ marks, walk first marks = some second ∧ marks.length = length}
      (difference first second).length := by
  constructor
  · exact ⟨difference first second, walk_difference first second, rfl⟩
  · rintro length ⟨marks, walked, rfl⟩
    obtain ⟨count, left, right, same, closed, opened⟩ := walk_keeps walked
    have bound := (take_eq_take_iff first second left right).mp same
    rw [length_marks marks, difference, List.length_append, List.length_map, List.length_reverse,
      List.length_map, List.length_drop, List.length_drop]
    omega

/-- Nothing is left open by the difference to no stack: every name closes, from
the top. -/
theorem difference_empty (names : List α) : difference names [] = names.reverse.map .closing := by
  have apart : agreement names [] = 0 := by
    cases names with
    | nil => rfl
    | cons name rest => rfl
  rw [difference, apart, List.drop_zero, List.drop_nil, List.map_nil, List.append_nil]

/-- Renaming the way from some names to nothing is the way from the renamed
names to nothing. This needs no injectivity, since nothing is compared on that
way. -/
theorem map_difference_empty {β : Type*} [DecidableEq β] (f : α → β) (names : List α) :
    (difference names []).map (Mark.map f) = difference (names.map f) [] := by
  rw [difference_empty, difference_empty, List.map_map, ← List.map_reverse, List.map_map]
  rfl

/-- The marks that lead from a stack through others, one after the other. Each
stack is reached from the one before it by their difference. -/
def trail (current : List α) : List (List α) → List (Mark α)
  | [] => []
  | next :: rest => difference current next ++ trail next rest

/-- A trail through one more stack leaves the last one before it. Without steps
before it, it leaves the stack that the trail began with. -/
theorem trail_concat (current : List α) (steps : List (List α)) (last : List α) :
    trail current (steps ++ [last]) =
      trail current steps ++ difference (steps.getLastD current) last := by
  induction steps generalizing current with
  | nil => exact List.append_nil _
  | cons next rest inductionHypothesis =>
    rw [List.cons_append, trail, inductionHypothesis, trail, List.append_assoc,
      List.getLastD_cons]

/-- A trail leaves the last of its steps open. Every step is reached in turn. -/
theorem walk_trail (current : List α) (steps : List (List α)) :
    walk current (trail current steps) = some (steps.getLastD current) := by
  induction steps using List.reverseRecOn with
  | nil => rfl
  | append_singleton before last inductionHypothesis =>
    rw [trail_concat, List.getLastD_concat]
    exact walk_trans inductionHypothesis (walk_difference _ last)

/-- A trail begins with the trail through the first of its steps. Later steps
take nothing back. -/
theorem trail_front (current : List α) (steps more : List (List α)) :
    trail current steps <+: trail current (steps ++ more) := by
  induction steps generalizing current with
  | nil => exact List.nil_prefix
  | cons next rest inductionHypothesis =>
    exact (List.prefix_append_right_inj _).mpr (inductionHypothesis next)

/-- There are as many open positions as open names. The walk has to succeed, as
a mark that closes nothing would be passed over otherwise. -/
theorem length_unmatched {names closed : List α} {marks : List (Mark α)}
    (walked : walk names marks = some closed) (count : Nat) {opened : List Nat}
    (same : opened.length = names.length) :
    (unmatched count opened marks).length = closed.length := by
  induction marks generalizing names count opened with
  | nil =>
    obtain rfl := Option.some.inj walked
    exact same
  | cons mark rest inductionHypothesis =>
    cases mark with
    | opening name =>
      apply inductionHypothesis walked
      rw [List.length_append, List.length_append, same]
      rfl
    | closing name =>
      obtain ⟨middle, popped, continued⟩ := walk_closing_split walked
      obtain rfl := walk_closing_some popped
      apply inductionHypothesis continued
      rw [List.length_dropLast, same, List.length_append]
      rfl

/-- What is open at a depth before and after a difference is the same exactly
when it lies in the common prefix. -/
theorem same_unmatched_iff {marks : List (Mark α)} {first second : List α}
    (walked : walk [] marks = some first) (depth : Nat) :
    (∃ position, (unmatched 0 [] marks)[depth]? = some position ∧
        (unmatched 0 [] (marks ++ difference first second))[depth]? = some position) ↔
      depth < agreement first second := by
  have length := length_unmatched walked 0 (Eq.refl ([] : List Nat).length)
  have past := @unmatched_lt α 0 [] marks (by intro position member; cases member)
  have bound := (agreement_le first second).1
  generalize opened : unmatched 0 [] marks = positions at length past ⊢
  obtain ⟨fresh, whole, later⟩ := unmatched_openings
    (0 + marks.length + ((first.drop (agreement first second)).reverse.map Mark.closing).length)
    (positions.take (agreement first second)) (second.drop (agreement first second))
  have after : unmatched 0 [] (marks ++ difference first second) =
      positions.take (agreement first second) ++ fresh := by
    have left : positions.length - (first.drop (agreement first second)).reverse.length =
        agreement first second := by
      rw [List.length_reverse, List.length_drop]
      omega
    rw [difference, unmatched_append, unmatched_append, opened, unmatched_closings, left, whole]
  rw [after]
  constructor
  · rintro ⟨position, before, still⟩
    by_contra above
    rw [List.getElem?_append_right (by rw [List.length_take]; omega)] at still
    have new := later position (List.mem_of_getElem? still)
    have old := past position (List.mem_of_getElem? before)
    omega
  · intro inside
    have present : depth < positions.length := by omega
    refine ⟨positions[depth], List.getElem?_eq_getElem present, ?_⟩
    rw [List.getElem?_append_left (by rw [List.length_take]; omega), List.getElem?_take_of_lt inside,
      List.getElem?_eq_getElem present]

end Difference

end Tracey.BracketWord
