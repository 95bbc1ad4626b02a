import Mathlib

/-!
# Bracket words

A bracket word is a sequence of named opening and closing marks. Walking it
keeps the names that are open, the most recent one last, and fails at a closing
mark whose name is not the most recent open one. A walk that starts and ends
with nothing open accepts exactly the words in which every closing mark has a
partner of its name and nothing is left over.

`WellNested` says this without a stack: it counts marks, and the partner of a
closing mark is the opening mark from which the counts are level.
-/

namespace Tracey.BracketWord

variable {α β : Type*}

/-- A mark that opens or closes a name. The names are those of the things that
are nested, such as functions. -/
inductive Mark (α : Type*) where
  | opening (name : α)
  | closing (name : α)
deriving DecidableEq, Repr

namespace Mark

/-- Rename a mark. It stays of its kind. -/
def map (f : α → β) : Mark α → Mark β
  | opening name => opening (f name)
  | closing name => closing (f name)

/-- What a mark opens or closes. -/
def name : Mark α → α
  | opening name => name
  | closing name => name

/-- Whether a mark opens something. -/
def isOpening : Mark α → Bool
  | opening _ => true
  | closing _ => false

/-- Whether a mark closes something. A mark is of one kind or the other. -/
def isClosing : Mark α → Bool
  | opening _ => false
  | closing _ => true

end Mark

/-- The names open after some marks, or nothing when a closing mark does not
match. -/
def walk [DecidableEq α] : List α → List (Mark α) → Option (List α)
  | opened, [] => some opened
  | opened, .opening name :: rest => walk (opened ++ [name]) rest
  | opened, .closing name :: rest =>
    if opened.getLast? = some name then walk opened.dropLast rest else none

/-- The number of opening marks. Their names do not matter. -/
def openings (marks : List (Mark α)) : Nat := marks.countP Mark.isOpening

/-- The number of closing marks. -/
def closings (marks : List (Mark α)) : Nat := marks.countP Mark.isClosing

/-- Closing marks never outnumber the opening ones before them, and finally the
counts are level. -/
structure Balanced (marks : List (Mark α)) : Prop where
  never : ∀ before after, marks = before ++ after → closings before ≤ openings before
  level : closings marks = openings marks

/-- A balanced word in which every closing mark has the name of the most recent
opening mark that is unmatched before it. -/
structure WellNested (marks : List (Mark α)) : Prop extends Balanced marks where
  partner : ∀ before name after, marks = before ++ .closing name :: after →
    ∃ front inner, before = front ++ .opening name :: inner ∧ Balanced inner

/-- An empty word opens nothing. -/
@[simp] theorem openings_nil : openings ([] : List (Mark α)) = 0 := rfl

/-- An empty word closes nothing. -/
@[simp] theorem closings_nil : closings ([] : List (Mark α)) = 0 := rfl

/-- A word opens what its parts open. -/
@[simp] theorem openings_append (before after : List (Mark α)) :
    openings (before ++ after) = openings before + openings after := List.countP_append

/-- A word closes what its parts close. -/
@[simp] theorem closings_append (before after : List (Mark α)) :
    closings (before ++ after) = closings before + closings after := List.countP_append

/-- An opening mark at the front opens one more. -/
@[simp] theorem openings_opening (name : α) (rest : List (Mark α)) :
    openings (.opening name :: rest) = openings rest + 1 := List.countP_cons_of_pos rfl

/-- A closing mark at the front opens nothing. -/
@[simp] theorem openings_closing (name : α) (rest : List (Mark α)) :
    openings (.closing name :: rest) = openings rest := rfl

/-- An opening mark at the front closes nothing. -/
@[simp] theorem closings_opening (name : α) (rest : List (Mark α)) :
    closings (.opening name :: rest) = closings rest := rfl

/-- A closing mark at the front closes one more. -/
@[simp] theorem closings_closing (name : α) (rest : List (Mark α)) :
    closings (.closing name :: rest) = closings rest + 1 := List.countP_cons_of_pos rfl

/-- An empty word is balanced. It is the word of a thread that does nothing. -/
theorem balanced_nil : Balanced ([] : List (Mark α)) where
  never := by
    intro before after split
    have empty : before = [] := (List.append_eq_nil_iff.mp split.symm).1
    rw [empty]
    rfl
  level := rfl

/-- Balanced words follow one another. -/
theorem Balanced.append {first second : List (Mark α)} (begun : Balanced first)
    (continued : Balanced second) : Balanced (first ++ second) where
  never := by
    intro before after split
    rcases List.append_eq_append_iff.mp split with ⟨middle, rfl, rest⟩ | ⟨middle, whole, _⟩
    · have bound := continued.never middle after rest
      have level := begun.level
      simp only [closings_append, openings_append]
      omega
    · exact begun.never before middle whole
  level := by
    rw [closings_append, openings_append, begun.level, continued.level]

/-- A balanced word stays balanced between a pair of marks. The names of the
pair are not compared. -/
theorem Balanced.enclose {inner : List (Mark α)} (balanced : Balanced inner) (first last : α) :
    Balanced (.opening first :: inner ++ [.closing last]) where
  never := by
    intro before after split
    have level := balanced.level
    cases before with
    | nil => exact Nat.le_refl 0
    | cons mark rest =>
      simp only [List.cons_append, List.cons.injEq] at split
      obtain ⟨rfl, split⟩ := split
      rw [closings_opening, openings_opening]
      rcases List.append_eq_append_iff.mp split with ⟨middle, rfl, final⟩ | ⟨middle, whole, _⟩
      · have count : closings middle ≤ 1 := by
          have total := congrArg closings final
          simp only [closings_append, closings_closing, closings_nil] at total
          omega
        rw [closings_append, openings_append]
        omega
      · have bound := balanced.never rest middle whole
        omega
  level := by
    have level := balanced.level
    simp only [List.cons_append, closings_opening, closings_append, closings_closing,
      closings_nil, openings_opening, openings_append, openings_closing, openings_nil]
    omega

section Walk

variable [DecidableEq α] [DecidableEq β]

/-- Over an empty word nothing changes. -/
@[simp] theorem walk_nil (opened : List α) : walk opened [] = some opened := rfl

/-- An opening mark adds its name to what is open. -/
@[simp] theorem walk_opening (opened : List α) (name : α) (rest : List (Mark α)) :
    walk opened (.opening name :: rest) = walk (opened ++ [name]) rest := rfl

/-- A closing mark has to have the name of what was opened last. Anything else
ends the walk, also when nothing is open. -/
theorem walk_closing (opened : List α) (name : α) (rest : List (Mark α)) :
    walk opened (.closing name :: rest) =
      if opened.getLast? = some name then walk opened.dropLast rest else none := rfl

/-- A closing mark with that name takes it away. -/
@[simp] theorem walk_closing_top (opened : List α) (name : α) (rest : List (Mark α)) :
    walk (opened ++ [name]) (.closing name :: rest) = walk opened rest := by
  rw [walk_closing, List.getLast?_concat, if_pos rfl, List.dropLast_concat]

/-- A walk over a concatenation continues the walk over its first part. If the
first part fails, so does the whole. -/
theorem walk_append (opened : List α) (before after : List (Mark α)) :
    walk opened (before ++ after) =
      (walk opened before).bind (fun middle => walk middle after) := by
  induction before generalizing opened with
  | nil => rfl
  | cons mark rest inductionHypothesis =>
    cases mark with
    | opening name => exact inductionHypothesis (opened ++ [name])
    | closing name =>
      rw [List.cons_append, walk_closing, walk_closing]
      split
      · exact inductionHypothesis opened.dropLast
      · rfl

/-- A successful walk over a concatenation succeeds on its first part. What is
open between them is determined by it. -/
theorem walk_split {opened closed : List α} {before after : List (Mark α)}
    (walked : walk opened (before ++ after) = some closed) :
    ∃ middle, walk opened before = some middle ∧ walk middle after = some closed := by
  rw [walk_append] at walked
  exact Option.bind_eq_some_iff.mp walked

/-- Two walks in a row are one walk. -/
theorem walk_trans {opened middle closed : List α} {before after : List (Mark α)}
    (begun : walk opened before = some middle) (continued : walk middle after = some closed) :
    walk opened (before ++ after) = some closed := by
  rw [walk_append, begun]
  exact continued

/-- The closing step of a successful walk removes the most recent name. -/
theorem walk_closing_some {opened closed : List α} {name : α}
    (walked : walk opened [.closing name] = some closed) : opened = closed ++ [name] := by
  rw [walk_closing] at walked
  split at walked
  · next top =>
    obtain ⟨below, rfl⟩ := List.getLast?_eq_some_iff.mp top
    rw [List.dropLast_concat] at walked
    rw [Option.some.inj walked]
  · cases walked

/-- A walk that starts with a closing mark takes that step first. Only the name
on top can allow it. -/
theorem walk_closing_split {opened closed : List α} {name : α} {rest : List (Mark α)}
    (walked : walk opened (.closing name :: rest) = some closed) :
    ∃ middle, walk opened [.closing name] = some middle ∧ walk middle rest = some closed := by
  apply walk_split
  exact walked

/-- Renaming the marks renames the walk. Different names may get the same new
name, since the walk only compares names that agree. -/
theorem walk_map (f : α → β) {opened closed : List α} {marks : List (Mark α)}
    (walked : walk opened marks = some closed) :
    walk (opened.map f) (marks.map (Mark.map f)) = some (closed.map f) := by
  induction marks generalizing opened with
  | nil =>
    rw [Option.some.inj walked]
    rfl
  | cons mark rest inductionHypothesis =>
    cases mark with
    | opening name =>
      have renamed := inductionHypothesis walked
      rwa [List.map_append] at renamed
    | closing name =>
      obtain ⟨middle, popped, continued⟩ := walk_closing_split walked
      rw [walk_closing_some popped, List.map_append]
      exact (walk_closing_top _ _ _).trans (inductionHypothesis continued)

/-- A walk that succeeds also succeeds on the marks of some of the names alone.
So the functions of one kind nest by themselves. -/
theorem walk_filter (keep : α → Bool) {opened closed : List α} {marks : List (Mark α)}
    (walked : walk opened marks = some closed) :
    walk (opened.filter keep) (marks.filter (fun mark => keep mark.name)) =
      some (closed.filter keep) := by
  induction marks generalizing opened with
  | nil =>
    rw [Option.some.inj walked]
    rfl
  | cons mark rest inductionHypothesis =>
    cases mark with
    | opening name =>
      have others := inductionHypothesis walked
      rw [List.filter_append] at others
      cases kept : keep name <;> simpa [List.filter_cons, Mark.name, kept] using others
    | closing name =>
      obtain ⟨middle, popped, continued⟩ := walk_closing_split walked
      have others := inductionHypothesis continued
      rw [walk_closing_some popped, List.filter_append]
      cases kept : keep name <;> simpa [List.filter_cons, Mark.name, kept] using others

/-- Marks account for the change in the number of open names. A walk that leaves
as much open as there was has as many of both kinds. -/
theorem walk_count {opened closed : List α} {marks : List (Mark α)}
    (walked : walk opened marks = some closed) :
    opened.length + openings marks = closed.length + closings marks := by
  induction marks generalizing opened with
  | nil =>
    rw [Option.some.inj walked]
    rfl
  | cons mark rest inductionHypothesis =>
    cases mark with
    | opening name =>
      have counted := inductionHypothesis walked
      simp only [List.length_append, List.length_singleton] at counted
      simp only [openings_opening, closings_opening]
      omega
    | closing name =>
      obtain ⟨middle, popped, continued⟩ := walk_closing_split walked
      have counted := inductionHypothesis continued
      rw [walk_closing_some popped, List.length_append, List.length_singleton]
      simp only [openings_closing, closings_closing]
      omega

/-- The most recent open name was opened by a mark after which the counts are
level.

Induct on the number of marks: a last closing mark closes a pair, which together
with what it encloses lies behind the mark that is looked for. -/
theorem walk_top (count : Nat) {marks : List (Mark α)} (short : marks.length ≤ count)
    {opened : List α} {name : α} (walked : walk [] marks = some (opened ++ [name])) :
    ∃ front inner, marks = front ++ .opening name :: inner ∧ Balanced inner ∧
      walk [] front = some opened := by
  induction count generalizing marks opened name with
  | zero =>
    have empty : marks = [] := List.length_eq_zero_iff.mp (Nat.le_zero.mp short)
    rw [empty] at walked
    exact absurd (Option.some.inj walked).symm (List.append_ne_nil_of_right_ne_nil opened (by simp))
  | succ count inductionHypothesis =>
    rcases List.eq_nil_or_concat' marks with rfl | ⟨body, last, rfl⟩
    · exact absurd (Option.some.inj walked).symm
        (List.append_ne_nil_of_right_ne_nil opened (by simp))
    have bodyShort : body.length ≤ count := by
      rw [List.length_append, List.length_singleton] at short
      omega
    obtain ⟨middle, begun, finished⟩ := walk_split walked
    cases last with
    | opening fresh =>
      have same : middle ++ [fresh] = opened ++ [name] := Option.some.inj finished
      obtain ⟨rfl, topSame⟩ := List.append_inj' same rfl
      obtain rfl : fresh = name := by simpa using topSame
      exact ⟨body, [], rfl, balanced_nil, begun⟩
    | closing closed =>
      rw [walk_closing_some finished] at begun
      obtain ⟨front, inner, rfl, balanced, below⟩ := inductionHypothesis bodyShort begun
      have frontShort : front.length ≤ count := by
        rw [List.length_append] at bodyShort
        omega
      obtain ⟨start, between, rfl, balanced', deeper⟩ := inductionHypothesis frontShort below
      refine ⟨start, between ++ (.opening closed :: inner ++ [.closing closed]), ?_,
        balanced'.append (balanced.enclose closed closed), deeper⟩
      simp

/-- A walk from nothing to nothing accepts only well-nested words. Every opening
mark is closed then, and in the right order. -/
theorem wellNested_of_walk {marks : List (Mark α)} (walked : walk [] marks = some []) :
    WellNested marks where
  never := by
    intro before after split
    rw [split] at walked
    obtain ⟨middle, begun, _⟩ := walk_split walked
    have counted := walk_count begun
    rw [List.length_nil] at counted
    omega
  level := by
    have counted := walk_count walked
    omega
  partner := by
    intro before name after split
    rw [split] at walked
    obtain ⟨opened, begun, continued⟩ := walk_split walked
    obtain ⟨below, popped, _⟩ := walk_closing_split continued
    rw [walk_closing_some popped] at begun
    obtain ⟨front, inner, found, balanced, _⟩ := walk_top before.length (Nat.le_refl _) begun
    exact ⟨front, inner, found, balanced⟩

end Walk

/-! Several words mixed. -/

/-- When the word of each key is level, so are all words together, however they
are mixed.

Induct over the number of items: the word of the first item's key is taken out
whole. -/
theorem level_of_keys {κ : Type*} [DecidableEq κ] (key : β → κ) (mark : β → Mark α)
    {items : List β}
    (each : ∀ k, closings ((items.filter (fun item => key item = k)).map mark) =
      openings ((items.filter (fun item => key item = k)).map mark)) :
    closings (items.map mark) = openings (items.map mark) := by
  induction size : items.length using Nat.strong_induction_on generalizing items with
  | _ size inductionHypothesis =>
    subst size
    cases items with
    | nil => rfl
    | cons first rest =>
      let mine : β → Bool := fun item => key item = key first
      have shorter : ((first :: rest).filter (!mine ·)).length < (first :: rest).length := by
        rw [List.filter_cons_of_neg (by simp [mine]), List.length_cons]
        exact Nat.lt_succ_of_le (List.length_filter_le _ rest)
      have others := @inductionHypothesis _ shorter ((first :: rest).filter (!mine ·)) (by
        intro k
        by_cases same : k = key first
        · have others : ((first :: rest).filter (!mine ·)).filter (fun item => key item = k) = [] := by
            rw [List.filter_filter, List.filter_eq_nil_iff]
            intro item _
            simp [mine, same]
          rw [others]
          rfl
        · have kept : ((first :: rest).filter (!mine ·)).filter (fun item => key item = k) =
              (first :: rest).filter (fun item => key item = k) := by
            rw [List.filter_filter]
            apply List.filter_congr
            intro item _
            by_cases here : key item = k
            · simp [mine, here, same]
            · simp [here]
          rw [kept]
          exact each k) rfl
      have own : closings (((first :: rest).filter mine).map mark) =
          openings (((first :: rest).filter mine).map mark) := each (key first)
      simp only [closings, openings, List.countP_map] at others own ⊢
      rw [List.countP_eq_countP_filter_add _ _ mine, own, others,
        ← List.countP_eq_countP_filter_add]

end Tracey.BracketWord
