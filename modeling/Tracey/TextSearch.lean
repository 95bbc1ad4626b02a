import Mathlib

/-!
# Searching for a pattern

The first and the last position at which a pattern occurs in a list, and how a
search passes over what cannot begin or contain an occurrence.
-/

namespace Tracey.TextSearch

variable {α : Type*} [DecidableEq α]

/-- The first position at which the pattern occurs. As with `std::string::find`,
the empty pattern occurs at the front. -/
def find (pattern : List α) : List α → Option Nat
  | [] => if pattern = [] then some 0 else none
  | c :: rest =>
    if pattern <+: c :: rest then some 0 else (find pattern rest).map (· + 1)

/-- The last position at which the pattern occurs. Where the pattern occurs in
overlapping places, the last of these counts. -/
def rfind (pattern : List α) : List α → Option Nat
  | [] => if pattern = [] then some 0 else none
  | c :: rest =>
    match rfind pattern rest with
    | some position => some (position + 1)
    | none => if pattern <+: c :: rest then some 0 else none

/-- A text that begins with the pattern has it at its front, so no later
occurrence is looked for. -/
theorem find_begins {pattern text : List α} (begins : pattern <+: text) :
    find pattern text = some 0 := by
  cases text with
  | nil => exact if_pos (List.prefix_nil.mp begins)
  | cons c rest => exact if_pos begins

/-- Where the pattern does not begin, the search goes on with the rest, one
place further on. -/
theorem find_cons {pattern rest : List α} {c : α} (apart : ¬ pattern <+: c :: rest) :
    find pattern (c :: rest) = (find pattern rest).map (· + 1) := if_neg apart

/-- A search succeeds if the pattern occurs. So a search that fails says that
the pattern occurs nowhere. -/
theorem find_isSome {pattern text : List α} :
    (find pattern text).isSome = true ↔ pattern <:+: text := by
  induction text with
  | nil =>
    rw [find, List.infix_nil]
    split <;> simp_all
  | cons c rest inductionHypothesis =>
    rw [find, List.infix_cons_iff]
    split
    · next begins => simp [begins]
    · next apart => simp [apart, inductionHypothesis]

/-- A search passes over a stretch if some item of the pattern is neither in it
nor so soon behind it that the pattern could begin in the stretch. -/
theorem find_pass {c : α} {front before rest : List α} (back : List α) (absent : c ∉ before)
    (soon : c ∉ rest.take front.length) :
    find (front ++ c :: back) (before ++ rest) =
      (find (front ++ c :: back) rest).map (· + before.length) := by
  induction before with
  | nil => simp
  | cons d others inductionHypothesis =>
    have apart : ¬ front ++ c :: back <+: d :: (others ++ rest) := by
      intro begins
      have marked : front ++ [c] <+: (d :: others) ++ rest :=
        (List.prefix_append_right_inj front |>.mpr (List.prefix_append [c] back)).trans begins
      have member : c ∈ ((d :: others) ++ rest).take (front ++ [c]).length := by
        rw [← List.prefix_iff_eq_take.mp marked]
        exact List.mem_append_right front List.mem_cons_self
      rw [List.take_append] at member
      rcases List.mem_append.mp member with here | behind
      · exact absent (List.mem_of_mem_take here)
      · have shorter : (front ++ [c]).length - (d :: others).length ≤ front.length := by
          simp
        exact soon ((List.take_prefix_take_left shorter).subset behind)
    rw [List.cons_append, find_cons apart, inductionHypothesis (List.not_mem_of_not_mem_cons absent),
      Option.map_map]
    rfl

/-- A search passes over items other than the first of the pattern. It is enough
that the first item of the pattern is absent. -/
theorem find_skip {first : α} {before : List α} (pattern after : List α)
    (absent : first ∉ before) :
    find (first :: pattern) (before ++ after) =
      (find (first :: pattern) after).map (· + before.length) := by
  have soon : first ∉ after.take ([] : List α).length := by simp
  exact find_pass pattern absent soon

/-- A search passes over a stretch in front of which and in which the second
item of the pattern does not occur. -/
theorem find_skip_second {second : α} {before after : List α} (first : α) (pattern : List α)
    (absent : second ∉ before) (next : after.head? ≠ some second) :
    find (first :: second :: pattern) (before ++ after) =
      (find (first :: second :: pattern) after).map (· + before.length) := by
  have soon : second ∉ after.take [first].length := by
    cases after with
    | nil => simp
    | cons c rest => simpa [eq_comm] using next
  exact find_pass pattern absent soon

/-- A search passes over a stretch that does not contain the pattern and ends
with an item that the pattern does not contain. -/
theorem find_skip_last {pattern before after : List α} {last : α}
    (absent : ¬ pattern <:+: before ++ [last]) (foreign : last ∉ pattern) :
    find pattern (before ++ last :: after) =
      (find pattern after).map (· + (before.length + 1)) := by
  have nonempty : pattern ≠ [] := by
    rintro rfl
    exact absent (List.nil_infix)
  have covers : ∀ stretch : List α, pattern <+: stretch ++ last :: after →
      pattern <+: stretch ++ [last] := by
    intro stretch begins
    have whole : stretch ++ last :: after = (stretch ++ [last]) ++ after := by simp
    rw [whole] at begins
    refine List.prefix_of_prefix_length_le begins (List.prefix_append _ after) ?_
    by_contra longer
    have ends : stretch ++ [last] <+: pattern :=
      List.prefix_of_prefix_length_le (List.prefix_append _ after) begins (by omega)
    exact foreign (ends.subset (List.mem_append_right stretch List.mem_cons_self))
  induction before with
  | nil =>
    have apart : ¬ pattern <+: last :: after := fun begins =>
      absent (covers [] begins).isInfix
    exact find_cons apart
  | cons c rest inductionHypothesis =>
    have apart : ¬ pattern <+: c :: (rest ++ last :: after) := fun begins =>
      absent (covers (c :: rest) begins).isInfix
    have others : ¬ pattern <:+: rest ++ [last] := fun inside =>
      absent (List.infix_cons inside)
    rw [List.cons_append, find_cons apart, inductionHypothesis others, Option.map_map]
    rfl

/-- An occurrence lies behind a stretch that does not contain the first item.
The stretch may contain the other items of the pattern. -/
theorem infix_of_skip {first : α} {pattern before after : List α} (absent : first ∉ before)
    (inside : first :: pattern <:+: before ++ after) : first :: pattern <:+: after := by
  rw [← find_isSome, find_skip _ _ absent, Option.isSome_map, find_isSome] at inside
  exact inside

omit [DecidableEq α] in
/-- An occurrence lies before a stretch that has no item of the pattern. An
empty pattern would occur behind it as well. -/
theorem infix_of_foreign {pattern before after : List α} (nonempty : pattern ≠ [])
    (foreign : ∀ c ∈ after, c ∉ pattern) (inside : pattern <:+: before ++ after) :
    pattern <:+: before := by
  induction after using List.reverseRecOn with
  | nil => simpa using inside
  | append_singleton rest last inductionHypothesis =>
    rw [← List.append_assoc] at inside
    apply inductionHypothesis (fun c member => foreign c (List.mem_append_left _ member))
    rcases List.infix_concat_iff.mp inside with ends | before
    · rcases List.suffix_concat_iff.mp ends with empty | ⟨front, same, _⟩
      · exact absurd empty nonempty
      · have lastForeign := foreign last (List.mem_append_right _ List.mem_cons_self)
        rw [same] at lastForeign
        exact absurd (List.mem_append_right front List.mem_cons_self) lastForeign
    · exact before

/-- A search passes over a stretch that does not contain the pattern if the
items behind it are foreign to the pattern. -/
theorem find_skip_foreign {pattern before middle : List α} (absent : ¬ pattern <:+: before)
    (nonempty : middle ≠ []) (foreign : ∀ c ∈ middle, c ∉ pattern) (after : List α) :
    find pattern (before ++ middle ++ after) =
      (find pattern after).map (· + (before ++ middle).length) := by
  have nonempty : pattern ≠ [] := by
    rintro rfl
    exact absent List.nil_infix
  have still : ¬ pattern <:+: before ++ middle := fun inside =>
    absent (infix_of_foreign nonempty foreign inside)
  rcases List.eq_nil_or_concat' middle with rfl | ⟨others, last, rfl⟩
  · exact absurd rfl nonempty
  · have lastForeign := foreign last (List.mem_append_right others List.mem_cons_self)
    rw [← List.append_assoc] at still
    have length : (before ++ others ++ [last]).length = (before ++ others).length + 1 :=
      List.length_append
    rw [← List.append_assoc, length, List.append_assoc, List.singleton_append,
      find_skip_last still lastForeign]

/-- A pattern whose first item does not return in it is found where it is
written, behind a stretch that does not contain it.

Induct over the stretch; an occurrence that begins in it would reach into the
pattern that is written, and have its first item there once more. -/
theorem find_first {first : α} {pattern before : List α} (once : first ∉ pattern)
    (absent : ¬ first :: pattern <:+: before) (after : List α) :
    find (first :: pattern) (before ++ (first :: pattern ++ after)) = some before.length := by
  induction before with
  | nil => exact find_begins (List.prefix_append _ after)
  | cons c rest inductionHypothesis =>
    have apart : ¬ first :: pattern <+: c :: (rest ++ (first :: pattern ++ after)) := by
      intro begins
      rw [← List.cons_append] at begins
      by_cases long : (first :: pattern).length ≤ (c :: rest).length
      · exact absent (List.prefix_of_prefix_length_le begins (List.prefix_append _ _) long).isInfix
      · have inside : c :: rest ++ [first] <+: c :: rest ++ (first :: pattern ++ after) :=
          (List.prefix_append_right_inj _).mpr (List.cons_prefix_cons.mpr ⟨rfl, List.nil_prefix⟩)
        obtain ⟨back, whole⟩ : c :: rest ++ [first] <+: first :: pattern :=
          List.prefix_of_prefix_length_le inside begins (by
            rw [List.length_append, List.length_singleton]
            omega)
        rw [List.append_assoc, List.cons_append, List.cons.injEq] at whole
        apply once
        rw [← whole.2]
        exact List.mem_append_right rest List.mem_cons_self
    rw [List.cons_append, find_cons apart,
      inductionHypothesis (fun inside => absent (List.infix_cons inside))]
    rfl

/-- The text from the first occurrence of the pattern on. It begins with the
pattern itself. -/
def found (pattern text : List α) : Option (List α) :=
  (find pattern text).map (fun position => text.drop position)

/-- What a search finds does not change if it has to pass something in front of
it. Only the position changes, by the length of what is passed. -/
theorem found_pass {pattern before rest : List α}
    (passed : find pattern (before ++ rest) = (find pattern rest).map (· + before.length)) :
    found pattern (before ++ rest) = found pattern rest := by
  have dropped : ∀ position, (before ++ rest).drop (position + before.length) =
      rest.drop position := by
    intro position
    rw [Nat.add_comm, ← List.drop_drop, List.drop_left]
  rw [found, passed, Option.map_map, found]
  exact congrArg (fun f => (find pattern rest).map f) (funext dropped)

/-- From the first occurrence on, a text that begins with the pattern is the
text itself. -/
theorem found_begins {pattern text : List α} (begins : pattern <+: text) :
    found pattern text = some text := by
  rw [found, find_begins begins]
  rfl

omit [DecidableEq α] in
/-- What a text ends with lies behind the last item that is foreign to it. What
stands before that item does not matter. -/
theorem suffix_of_foreign {pattern before after : List α} {c : α} (foreign : c ∉ pattern)
    (ends : pattern <:+ before ++ c :: after) : pattern <:+ after := by
  have whole : ¬ c :: after <:+ pattern := fun inside => foreign (inside.subset List.mem_cons_self)
  rcases List.suffix_or_suffix_of_suffix ends (List.suffix_append before (c :: after)) with
    short | long
  · rcases List.suffix_cons_iff.mp short with same | behind
    · exact absurd (same ▸ List.suffix_refl _) whole
    · exact behind
  · exact absurd long whole

/-- A pattern that occurs nowhere is not found from behind either. Induct over
the text; an absent pattern is absent from every rest. -/
theorem rfind_none {pattern text : List α} (absent : ¬ pattern <:+: text) :
    rfind pattern text = none := by
  induction text with
  | nil =>
    rw [List.infix_nil] at absent
    exact if_neg absent
  | cons c rest inductionHypothesis =>
    rw [List.infix_cons_iff, not_or] at absent
    rw [rfind, inductionHypothesis absent.2]
    exact if_neg absent.1

/-- What is found last stands where it is found. The pattern is read off there
again. -/
theorem rfind_begins {pattern text : List α} {position : Nat}
    (found : rfind pattern text = some position) : pattern <+: text.drop position := by
  induction text generalizing position with
  | nil =>
    rw [rfind] at found
    split at found
    · next empty =>
      rw [empty]
      exact List.nil_prefix
    · cases found
  | cons c rest inductionHypothesis =>
    rw [rfind] at found
    split at found
    · next later =>
      rw [← Option.some.inj found]
      exact inductionHypothesis later
    · split at found
      · next begins =>
        rw [← Option.some.inj found]
        exact begins
      · cases found

/-- The last occurrence is the one behind which there is no other. -/
theorem rfind_last {first : α} {pattern before after : List α}
    (absent : ¬ first :: pattern <:+: pattern ++ after) :
    rfind (first :: pattern) (before ++ (first :: pattern ++ after)) = some before.length := by
  induction before with
  | nil =>
    rw [List.nil_append, List.cons_append, rfind, rfind_none absent]
    exact if_pos (List.prefix_append (first :: pattern) after)
  | cons c rest inductionHypothesis =>
    rw [List.cons_append, rfind, inductionHypothesis]
    rfl

end Tracey.TextSearch
