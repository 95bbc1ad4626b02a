import Mathlib

/-!
# Cutting a sequence into slices

A sequence is cut, as a whole, into the slices that are kept and the gaps
between them. A slice opens at the first item that begins one, or at once where
no such item is asked for. It reaches up to and including the first later item
that ends it, and to the end of the sequence where there is none. Behind a
closed slice the cutting starts again, or nothing more is kept.
-/

namespace Tracey.Slices

variable {α : Type*}

/-- A stretch of the sequence: between the slices, or one slice, closed or not.
The pieces of a sequence are all of it, in order. -/
inductive Piece (α : Type*) where
  | gap (items : List α)
  | slice (items : List α) (closed : Bool)
deriving Repr

/-- The items of a piece, each with whether it is kept. All items of a piece
share one mark. -/
def Piece.marked : Piece α → List (α × Bool)
  | .gap items => items.map (·, false)
  | .slice items _ => items.map (·, true)

/-- The items of a piece that are kept. A slice is kept also if it has not been
closed. -/
def Piece.kept : Piece α → List α
  | .gap _ => []
  | .slice items _ => items

/-- Whether the piece is a slice. -/
def Piece.isSlice : Piece α → Bool
  | .gap _ => false
  | .slice _ _ => true

/-- Whether the piece is a slice that has been closed. Only the last slice may
be open. -/
def Piece.isClosed : Piece α → Bool
  | .gap _ => false
  | .slice _ closed => closed

/-- What stands before the next slice, what opens it, and what follows. Nothing
opens a slice where none need be waited for. -/
def opening (begins : Option (α → Bool)) (items : List α) :
    Option (List α × List α × List α) :=
  match begins with
  | none => some ([], [], items)
  | some begins =>
    match items.dropWhile (!begins ·) with
    | [] => none
    | first :: rest => some (items.takeWhile (!begins ·), [first], rest)

/-- What an open slice still takes, the item that ends it included, and what
follows. -/
def closing (ends : α → Bool) (items : List α) : Option (List α × List α) :=
  match items.dropWhile (!ends ·) with
  | [] => none
  | last :: rest => some (items.takeWhile (!ends ·) ++ [last], rest)

/-- What is kept is what is marked so. -/
theorem marked_kept (pieces : List (Piece α)) :
    ((pieces.flatMap Piece.marked).filter Prod.snd).map Prod.fst = pieces.flatMap Piece.kept := by
  induction pieces with
  | nil => rfl
  | cons piece rest inductionHypothesis =>
    have first : (piece.marked.filter Prod.snd).map Prod.fst = piece.kept := by
      cases piece with
      | gap items => simp [Piece.marked, Piece.kept]
      | slice items closed =>
        have all : (items.map (·, true)).filter Prod.snd = items.map (·, true) :=
          List.filter_eq_self.mpr (by simp)
        rw [Piece.marked, all, List.map_map]
        exact List.map_id items
    rw [List.flatMap_cons, List.filter_append, List.map_append, first, inductionHypothesis]
    rfl

/-- Nothing begins a slice exactly when no item does. -/
theorem opening_none {begins : α → Bool} {items : List α} :
    opening (some begins) items = none ↔ ∀ item ∈ items, begins item = false := by
  unfold opening
  constructor
  · intro absent
    cases remaining : items.dropWhile (!begins ·) with
    | nil => simpa using List.dropWhile_eq_nil_iff.mp remaining
    | cons first rest => simp [remaining] at absent
  · intro unopened
    have remaining : items.dropWhile (!begins ·) = [] :=
      List.dropWhile_eq_nil_iff.mpr (by simpa using unopened)
    simp [remaining]

/-- A slice opens at the first item that begins one. The item that begins the
slice belongs to it. -/
theorem opening_some {begins : α → Bool} {items skipped opened rest : List α}
    (found : opening (some begins) items = some (skipped, opened, rest)) :
    ∃ first, opened = [first] ∧ begins first = true ∧ items = skipped ++ first :: rest ∧
      ∀ item ∈ skipped, begins item = false := by
  unfold opening at found
  cases remaining : items.dropWhile (!begins ·) with
  | nil => simp [remaining] at found
  | cons first after =>
    simp only [remaining, Option.some.injEq, Prod.mk.injEq] at found
    obtain ⟨rfl, rfl, rfl⟩ := found
    have head := List.head_dropWhile_not (l := items) (!begins ·) (by simp [remaining])
    refine ⟨first, rfl, by simpa [remaining] using head, ?_, ?_⟩
    · rw [← remaining, List.takeWhile_append_dropWhile]
    · intro item member
      simpa using List.mem_takeWhile_imp member

/-- A slice stays open exactly when no item ends it. All items that are left
belong to it then. -/
theorem closing_none {ends : α → Bool} {items : List α} :
    closing ends items = none ↔ ∀ item ∈ items, ends item = false := by
  unfold closing
  constructor
  · intro absent
    cases remaining : items.dropWhile (!ends ·) with
    | nil => simpa using List.dropWhile_eq_nil_iff.mp remaining
    | cons last rest => simp [remaining] at absent
  · intro unclosed
    have remaining : items.dropWhile (!ends ·) = [] :=
      List.dropWhile_eq_nil_iff.mpr (by simpa using unclosed)
    simp [remaining]

/-- A slice closes at the first item that ends it. The item that ends the slice
belongs to it, even if it is the first one looked at. -/
theorem closing_some {ends : α → Bool} {items body rest : List α}
    (found : closing ends items = some (body, rest)) :
    ∃ inner last, body = inner ++ [last] ∧ ends last = true ∧ items = inner ++ last :: rest ∧
      ∀ item ∈ inner, ends item = false := by
  unfold closing at found
  cases remaining : items.dropWhile (!ends ·) with
  | nil => simp [remaining] at found
  | cons last after =>
    simp only [remaining, Option.some.injEq, Prod.mk.injEq] at found
    obtain ⟨rfl, rfl⟩ := found
    have head := List.head_dropWhile_not (l := items) (!ends ·) (by simp [remaining])
    refine ⟨_, last, rfl, by simpa [remaining] using head, ?_, ?_⟩
    · rw [← remaining, List.takeWhile_append_dropWhile]
    · intro item member
      simpa using List.mem_takeWhile_imp member

/-- What follows the opening is no longer than the sequence. It is just as long
when nothing has to be waited for. -/
theorem opening_shorter {begins : Option (α → Bool)} {items skipped opened rest : List α}
    (found : opening begins items = some (skipped, opened, rest)) :
    rest.length ≤ items.length := by
  cases begins with
  | none =>
    simp only [opening, Option.some.injEq, Prod.mk.injEq] at found
    rw [found.2.2]
  | some begins =>
    obtain ⟨first, -, -, cut, -⟩ := opening_some found
    rw [cut, List.length_append, List.length_cons]
    omega

/-- Closing a slice takes at least one item. The cut of a sequence into pieces
ends for this reason. -/
theorem closing_shorter {ends : α → Bool} {items body rest : List α}
    (found : closing ends items = some (body, rest)) : rest.length < items.length := by
  obtain ⟨inner, last, -, -, cut, -⟩ := closing_some found
  rw [cut, List.length_append, List.length_cons]
  omega

/-- The pieces of a sequence, from where the next slice is waited for. With one
slice only, everything behind it is a gap. -/
def pieces (begins : Option (α → Bool)) (ends : α → Bool) (many : Bool) (items : List α) :
    List (Piece α) :=
  match _start : opening begins items with
  | none => [.gap items]
  | some (skipped, opened, rest) =>
    match _stop : closing ends rest with
    | none => [.gap skipped, .slice (opened ++ rest) false]
    | some (body, after) =>
      .gap skipped :: .slice (opened ++ body) true ::
        if many then pieces begins ends many after else [.gap after]
termination_by items.length
decreasing_by exact Nat.lt_of_lt_of_le (closing_shorter _stop) (opening_shorter _start)

section Pieces

variable {begins : Option (α → Bool)} {ends : α → Bool} {many : Bool}
  {items skipped opened rest body after : List α}

/-- If no item begins a slice, all items are a gap. -/
theorem pieces_waiting (start : opening begins items = none) :
    pieces begins ends many items = [.gap items] := by
  rw [pieces]
  split
  · rfl
  · next found => rw [start] at found; cases found

/-- A slice that no item ends goes on to the last item, and stays open. -/
theorem pieces_open (start : opening begins items = some (skipped, opened, rest))
    (stop : closing ends rest = none) :
    pieces begins ends many items = [.gap skipped, .slice (opened ++ rest) false] := by
  rw [pieces]
  split
  · next found => rw [start] at found; cases found
  · next found =>
    rw [start] at found
    cases found
    split
    · rfl
    · next closed => rw [stop] at closed; cases closed

/-- A slice that ends is closed, and behind it the next one is looked for only
if there may be many. -/
theorem pieces_closed (start : opening begins items = some (skipped, opened, rest))
    (stop : closing ends rest = some (body, after)) :
    pieces begins ends many items = .gap skipped :: .slice (opened ++ body) true ::
      if many then pieces begins ends many after else [.gap after] := by
  rw [pieces]
  split
  · next found => rw [start] at found; cases found
  · next found =>
    rw [start] at found
    cases found
    split
    · next closed => rw [stop] at closed; cases closed
    · next closed =>
      rw [stop] at closed
      cases closed
      rfl

end Pieces

/-- A sequence has a slice unless one was waited for in vain. The slice may be
empty when nothing had to be waited for. -/
theorem pieces_isSlice (begins : Option (α → Bool)) (ends : α → Bool) (many : Bool)
    (items : List α) :
    (pieces begins ends many items).any Piece.isSlice = (opening begins items).isSome := by
  cases start : opening begins items with
  | none => rw [pieces_waiting start]; rfl
  | some found =>
    obtain ⟨skipped, opened, rest⟩ := found
    cases stop : closing ends rest with
    | none => rw [pieces_open start stop]; rfl
    | some found => rw [pieces_closed start stop]; rfl

end Tracey.Slices
