import Mathlib

/-!
# Pieces between separators

Two ways to read a list as pieces. Where the separator ends a piece, the pieces
are the stretches up to each separator, and what is left behind the last one if
anything is. Where it stands between pieces, the empty stretches count for
nothing. Both are cuts of the list at every separator; they differ in which
empty stretches they drop.
-/

namespace Tracey.Separated

variable {α : Type*} [DecidableEq α] {sep : α}

/-- The pieces that the separator ends, and a last one that it does not end.
With the separator at the end there is no last piece. -/
def terminated (sep : α) (items : List α) : List (List α) :=
  let pieces := items.splitOn sep
  if pieces.getLast? = some [] then pieces.dropLast else pieces

/-- The pieces that are not empty. So it makes no difference how many separators
stand in a row. -/
def fields (sep : α) (items : List α) : List (List α) := (items.splitOn sep).filter (· ≠ [])

/-- No stretch of a cut contains the separator.

Induct over the list; an item goes to the front of the first stretch. -/
theorem splitOn_plain (items : List α) : ∀ piece ∈ items.splitOn sep, sep ∉ piece := by
  induction items with
  | nil => simp
  | cons item rest inductionHypothesis =>
    rw [List.splitOn_cons_eq_if_modifyHead]
    split
    · exact List.forall_mem_cons.mpr ⟨List.not_mem_nil, inductionHypothesis⟩
    · next other =>
      have different : item ≠ sep := by simpa using other
      obtain ⟨first, more, whole⟩ := List.exists_cons_of_ne_nil (List.splitOn_ne_nil sep rest)
      rw [whole] at inductionHypothesis ⊢
      obtain ⟨firstPlain, morePlain⟩ := List.forall_mem_cons.mp inductionHypothesis
      rw [List.modifyHead_cons]
      refine List.forall_mem_cons.mpr ⟨?_, morePlain⟩
      rw [List.mem_cons, not_or]
      exact ⟨Ne.symm different, firstPlain⟩

/-! Terminated pieces. -/

/-- Nothing is taken apart into nothing. -/
@[simp] theorem terminated_nil : terminated sep [] = [] := by
  simp [terminated]

/-- A piece with its end in front of the rest. The piece may be empty. -/
theorem terminated_piece {piece : List α} (plain : sep ∉ piece) (rest : List α) :
    terminated sep (piece ++ sep :: rest) = piece :: terminated sep rest := by
  obtain ⟨first, more, whole⟩ := List.exists_cons_of_ne_nil (List.splitOn_ne_nil sep rest)
  rw [terminated, List.splitOn_append_cons_self_of_not_mem plain, terminated, whole]
  simp only [List.getLast?_cons_cons, List.dropLast_cons_cons]
  split
  · rfl
  · rfl

/-- A last piece without its end. An empty one would not be a piece. -/
theorem terminated_last {piece : List α} (plain : sep ∉ piece) (nonempty : piece ≠ []) :
    terminated sep piece = [piece] := by
  simp [terminated, List.splitOn_eq_singleton plain, nonempty]

/-- No terminated piece contains the separator. They can be written with their
ends again. -/
theorem terminated_plain (items : List α) : ∀ piece ∈ terminated sep items, sep ∉ piece := by
  intro piece member
  apply splitOn_plain items
  simp only [terminated] at member
  split at member
  · exact List.mem_of_mem_dropLast member
  · exact member

/-- A list is a piece without its end, or a piece with its end in front of a
shorter list. -/
theorem piece_cases (sep : α) (items : List α) :
    sep ∉ items ∨ ∃ piece rest, sep ∉ piece ∧ items = piece ++ sep :: rest := by
  by_cases plain : sep ∈ items
  · obtain ⟨piece, rest, whole, first⟩ := List.eq_append_cons_of_mem plain
    exact .inr ⟨piece, rest, first, whole⟩
  · exact .inl plain

/-- Pieces written with their ends are read back. Empty pieces are kept. -/
theorem terminated_ended {pieces : List (List α)} (plain : ∀ piece ∈ pieces, sep ∉ piece) :
    terminated sep (pieces.flatMap (· ++ [sep])) = pieces := by
  induction pieces with
  | nil => exact terminated_nil
  | cons piece rest inductionHypothesis =>
    obtain ⟨first, others⟩ := List.forall_mem_cons.mp plain
    rw [List.flatMap_cons, List.append_assoc, List.singleton_append, terminated_piece first,
      inductionHypothesis others]

/-- The pieces with their ends are the list again, with an end behind its last
piece.

Induct over the length of the list: behind a piece and its end a shorter one is
left. -/
theorem ended_terminated (items : List α) :
    (terminated sep items).flatMap (· ++ [sep]) =
      if items = [] ∨ items.getLast? = some sep then items else items ++ [sep] := by
  induction size : items.length using Nat.strong_induction_on generalizing items with
  | _ size inductionHypothesis =>
    subst size
    rcases piece_cases sep items with plain | ⟨piece, rest, plain, rfl⟩
    · by_cases nonempty : items = []
      · subst nonempty
        simp
      · have open' : ¬ (items = [] ∨ items.getLast? = some sep) := by
          rintro (empty | last)
          · exact nonempty empty
          · exact plain (List.mem_of_getLast? last)
        rw [terminated_last plain nonempty, if_neg open', List.flatMap_singleton]
    · have shorter : rest.length < (piece ++ sep :: rest).length := by simp; omega
      have later := inductionHypothesis rest.length shorter rest rfl
      have ends : (piece ++ sep :: rest = [] ∨ (piece ++ sep :: rest).getLast? = some sep) ↔
          (rest = [] ∨ rest.getLast? = some sep) := by
        cases rest with
        | nil => simp
        | cons first more => simp [List.getLast?_append, List.getLast?_cons_cons]
      rw [terminated_piece plain, List.flatMap_cons, later]
      simp only [ends]
      split
      · simp
      · simp

/-- Behind a list that ends with an end, or is empty, the pieces start afresh.
So an output may be read in parts. -/
theorem terminated_append {items : List α} (ends : items = [] ∨ items.getLast? = some sep)
    (rest : List α) : terminated sep (items ++ rest) = terminated sep items ++ terminated sep rest := by
  have whole := @ended_terminated α _ sep items
  have plain := @terminated_plain α _ sep items
  rw [if_pos ends] at whole
  generalize terminated sep items = pieces at whole plain ⊢
  subst whole
  clear ends
  induction pieces with
  | nil => rfl
  | cons piece others inductionHypothesis =>
    obtain ⟨first, later⟩ := List.forall_mem_cons.mp plain
    rw [List.flatMap_cons, List.append_assoc, List.append_assoc, List.singleton_append,
      terminated_piece first, inductionHypothesis later, List.cons_append]

/-- A list is cut off behind some pieces and a last one of which a part is left,
if anything. -/
theorem terminated_cut (sep : α) (kept rest : List α) :
    ∃ (pieces : List (List α)) (part : Option (List α)) (more : List (List α)),
      terminated sep kept = pieces ++ part.toList ∧
      terminated sep (kept ++ rest) = pieces ++ more ∧
        ∀ left ∈ part, left ≠ [] ∧ ∃ whole ∈ more.head?, left <+: whole := by
  induction size : kept.length using Nat.strong_induction_on generalizing kept with
  | _ size inductionHypothesis =>
    subst size
    rcases piece_cases sep kept with plain | ⟨piece, behind, plain, rfl⟩
    · by_cases nonempty : kept = []
      · subst nonempty
        exact ⟨[], none, _, terminated_nil, rfl, by simp⟩
      · refine ⟨[], some kept, terminated sep (kept ++ rest), terminated_last plain nonempty, rfl, ?_⟩
        intro left here
        obtain rfl := Option.some.inj here
        refine ⟨nonempty, ?_⟩
        rcases piece_cases sep rest with open' | ⟨piece, more, closed, rfl⟩
        · have joined : sep ∉ kept ++ rest := List.not_mem_append plain open'
          rw [terminated_last joined (by simp [nonempty])]
          exact ⟨_, rfl, List.prefix_append kept rest⟩
        · have joined : sep ∉ kept ++ piece := List.not_mem_append plain closed
          rw [← List.append_assoc, terminated_piece joined]
          exact ⟨_, rfl, List.prefix_append kept piece⟩
    · have shorter : behind.length < (piece ++ sep :: behind).length := by simp; omega
      obtain ⟨pieces, part, more, cut, whole, left⟩ :=
        inductionHypothesis behind.length shorter behind rfl
      refine ⟨piece :: pieces, part, more, ?_, ?_, left⟩
      · rw [terminated_piece plain, cut, List.cons_append]
      · rw [List.append_assoc, List.cons_append, terminated_piece plain, whole, List.cons_append]

/-! Fields. -/

/-- No field is empty, and none has a separator in it. They are what a list with
commas can hold. -/
theorem fields_plain (items : List α) : ∀ field ∈ fields sep items, field ≠ [] ∧ sep ∉ field := by
  intro field member
  obtain ⟨inside, nonempty⟩ := List.mem_filter.mp member
  exact ⟨by simpa using nonempty, splitOn_plain items field inside⟩

/-- Fields joined by separators are read back. Empty pieces would be lost. -/
theorem fields_joined {pieces : List (List α)}
    (plain : ∀ piece ∈ pieces, piece ≠ [] ∧ sep ∉ piece) :
    fields sep ([sep].intercalate pieces) = pieces := by
  by_cases nonempty : pieces = []
  · subst nonempty
    simp [fields]
  · rw [fields, List.splitOn_intercalate sep (fun piece member => (plain piece member).2) nonempty,
      List.filter_eq_self]
    intro piece member
    exact decide_eq_true (plain piece member).1

end Tracey.Separated
