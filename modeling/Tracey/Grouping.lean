import Mathlib

/-!
# Grouping items by what continues them

A group is an item with the run of continuing items behind it. Blank items
belong to no group. The groups of a whole sequence are compared with an
accumulator that takes one item at a time and hands a group out when the next
item shows that it is complete.
-/

namespace Tracey.Grouping

variable {α β : Type*} (blank continues : α → Bool)

/-- The groups of a sequence, each with the position behind its last item. A
group may be closed by the item behind it or by the end, but its position is
behind its own last item. -/
def closings (position : Nat) (items : List α) : List (Nat × List α) :=
  match items with
  | [] => []
  | item :: rest =>
    if blank item then closings (position + 1) rest
    else
      let body := rest.takeWhile continues
      (position + 1 + body.length, item :: body) ::
        closings (position + 1 + body.length) (rest.dropWhile continues)
termination_by items.length
decreasing_by
  · exact Nat.lt_succ_self _
  · exact Nat.lt_succ_of_le (List.dropWhile_suffix continues).length_le

/-- The items of a group are items of the sequence. Blank items are in none. -/
theorem closings_mem (position : Nat) (items : List α) {group : Nat × List α}
    (closed : group ∈ closings blank continues position items) : ∀ item ∈ group.2, item ∈ items := by
  fun_induction closings blank continues position items with
  | case1 position => exact absurd closed List.not_mem_nil
  | case2 position item rest isBlank inductionHypothesis =>
    exact fun other inside => List.mem_cons_of_mem item (inductionHypothesis closed other inside)
  | case3 position item rest solid body inductionHypothesis =>
    intro other inside
    rcases List.mem_cons.mp closed with here | later
    · rw [here] at inside
      rcases List.mem_cons.mp inside with same | below
      · exact List.mem_cons.mpr (.inl same)
      · exact List.mem_cons_of_mem item ((List.takeWhile_subset _) below)
    · exact List.mem_cons_of_mem item
        ((List.dropWhile_suffix continues).subset (inductionHypothesis later other inside))

/-- The group handed out by an accumulator that holds these items. Nothing that
is held is no group, not an empty one. -/
def close (held : List α) : Option (List α) := if held.isEmpty then none else some held

/-- What is held after one more item, and the group it completes. Only an item
that does not continue a group, or a blank one, completes what is held. -/
def feed (held : List α) (item : α) : List α × Option (List α) :=
  if blank item then ([], close held)
  else if continues item then (held ++ [item], none)
  else ([item], close held)

/-- The answers to a sequence of items and to its end. There is one answer more
than there are items: the one to the end. -/
def feedAll : List α → List α → List (Option (List α))
  | held, [] => [close held]
  | held, item :: rest =>
    (feed blank continues held item).2 :: feedAll (feed blank continues held item).1 rest

/-- The answers that hold something, each with its position. An answer's
position is the number of answers up to it, its own included. -/
def stamped (position : Nat) (answers : List (Option β)) : List (Nat × β) :=
  (answers.zipIdx position).filterMap (fun answer => answer.1.map (answer.2, ·))

/-- No answers hold nothing. -/
@[simp] theorem stamped_nil (position : Nat) : stamped position ([] : List (Option β)) = [] := rfl

/-- An answer without a value is skipped, and only moves the position on. -/
@[simp] theorem stamped_none (position : Nat) (rest : List (Option β)) :
    stamped position (none :: rest) = stamped (position + 1) rest := rfl

/-- An answer with a value is kept at its position. -/
@[simp] theorem stamped_some (position : Nat) (value : β) (rest : List (Option β)) :
    stamped position (some value :: rest) = (position, value) :: stamped (position + 1) rest := rfl

/-- The first answer stands in front of the others if it holds something. -/
theorem reduceOption_cons (answer : Option β) (rest : List (Option β)) :
    (answer :: rest).reduceOption = answer.toList ++ rest.reduceOption := by
  cases answer with
  | none => rfl
  | some value => rfl

/-- Without their positions the answers are those that hold something, in order.
A statement about groups in order follows from one with positions. -/
theorem stamped_values (position : Nat) (answers : List (Option β)) :
    (stamped position answers).map Prod.snd = answers.reduceOption := by
  induction answers generalizing position with
  | nil => rfl
  | cons answer rest inductionHypothesis =>
    rw [reduceOption_cons, ← inductionHypothesis (position + 1)]
    cases answer with
    | none => rfl
    | some value => rfl

/-- Answers computed from answers keep their positions. The computation may drop
answers, but never moves one. -/
theorem stamped_bind {γ : Type*} (compute : β → Option γ) (position : Nat)
    (answers : List (Option β)) :
    stamped position (answers.map (·.bind compute)) =
      (stamped position answers).filterMap (fun answer => (compute answer.2).map (answer.1, ·)) := by
  induction answers generalizing position with
  | nil => rfl
  | cons answer rest inductionHypothesis =>
    cases answer with
    | none => exact inductionHypothesis (position + 1)
    | some value =>
      cases computed : compute value with
      | none => simpa [computed] using inductionHypothesis (position + 1)
      | some result => simpa [computed] using inductionHypothesis (position + 1)

/-- Answers computed from answers are computed from those that hold something. -/
theorem reduceOption_bind {γ : Type*} (compute : β → Option γ) (answers : List (Option β)) :
    (answers.map (·.bind compute)).reduceOption = answers.reduceOption.filterMap compute := by
  simp only [List.reduceOption, List.filterMap_map, List.filterMap_filterMap]
  rfl

/-- An empty group is none. -/
@[simp] theorem close_nil : close ([] : List α) = none := rfl

/-- A group that holds something is closed as it is. -/
theorem close_held {held : List α} (nonempty : held ≠ []) : close held = some held := by
  simp [close, nonempty]

/-- Without items there are no groups. -/
@[simp] theorem closings_nil (position : Nat) : closings blank continues position [] = [] := by
  rw [closings]

section

variable {blank continues}

/-- A blank item outside a group closes none, and only moves the position on.
Several blank items in a row are passed over one by one. -/
theorem closings_blank {item : α} (isBlank : blank item = true) (position : Nat) (rest : List α) :
    closings blank continues position (item :: rest) =
      closings blank continues (position + 1) rest := by
  rw [closings, if_pos isBlank]

/-- An item that is not blank opens a group, which takes all items that continue
it. The group is closed at the item behind them. -/
theorem closings_group {item : α} (solid : blank item = false) (position : Nat) (rest : List α) :
    closings blank continues position (item :: rest) =
      (position + 1 + (rest.takeWhile continues).length, item :: rest.takeWhile continues) ::
        closings blank continues (position + 1 + (rest.takeWhile continues).length)
          (rest.dropWhile continues) := by
  rw [closings, if_neg (by rw [solid]; exact Bool.false_ne_true)]

/-- The accumulator hands out exactly the groups, each when the item behind it
arrives.

Induct over the items for any group that is being held. A held group takes the
items that continue it and is handed out at the next one; behind it the groups
are those of the remaining items. -/
theorem feedAll_closings (apart : ∀ item, continues item = true → blank item = false)
    (items : List α) (position : Nat) :
    stamped position (feedAll blank continues [] items) = closings blank continues position items ∧
      ∀ held ≠ [], stamped position (feedAll blank continues held items) =
        (position + (items.takeWhile continues).length, held ++ items.takeWhile continues) ::
          closings blank continues (position + (items.takeWhile continues).length)
            (items.dropWhile continues) := by
  induction items generalizing position with
  | nil =>
    refine ⟨by simp [feedAll], fun held nonempty => ?_⟩
    simp [feedAll, close_held nonempty]
  | cons item rest inductionHypothesis =>
    obtain ⟨fromNone, fromHeld⟩ := inductionHypothesis (position + 1)
    by_cases isBlank : blank item = true
    · have stops : continues item = false := by
        by_contra continuing
        rw [apart item (by simpa using continuing)] at isBlank
        cases isBlank
      constructor
      · rw [closings_blank isBlank, ← fromNone]
        simp [feedAll, feed, isBlank]
      · intro held nonempty
        simp [feedAll, feed, isBlank, stops, close_held nonempty, fromNone,
          closings_blank isBlank]
    · have solid : blank item = false := by simpa using isBlank
      by_cases continuing : continues item = true
      · constructor
        · rw [closings_group solid]
          simpa [feedAll, feed, solid, continuing] using fromHeld [item] (List.cons_ne_nil _ _)
        · intro held nonempty
          have taken := fromHeld (held ++ [item]) (by simp)
          simp only [feedAll, feed, solid, continuing, Bool.false_eq_true, if_false, if_true,
            stamped_none, taken, List.takeWhile_cons_of_pos, List.dropWhile_cons_of_pos,
            List.length_cons, List.append_assoc, List.singleton_append]
          rw [Nat.add_right_comm, Nat.add_assoc position]
      · have stops : continues item = false := by simpa using continuing
        have fresh := fromHeld [item] (List.cons_ne_nil _ _)
        constructor
        · rw [closings_group solid]
          simpa [feedAll, feed, solid, stops] using fresh
        · intro held nonempty
          simp [feedAll, feed, solid, stops, close_held nonempty, fresh, closings_group solid]

/-- A blank item in front of one that continues nothing, or at the end, changes
no group. -/
theorem feedAll_blank {item : α} (isBlank : blank item = true) {after : List α}
    (stops : ∀ next ∈ after.head?, continues next = false) (before held : List α) :
    (feedAll blank continues held (before ++ item :: after)).reduceOption =
      (feedAll blank continues held (before ++ after)).reduceOption := by
  induction before generalizing held with
  | nil =>
    cases after with
    | nil => simp [feedAll, feed, isBlank, reduceOption_cons]
    | cons next rest =>
      have stop : continues next = false := stops next rfl
      by_cases blankNext : blank next = true
      · simp [feedAll, feed, isBlank, blankNext, reduceOption_cons]
      · simp [feedAll, feed, isBlank, blankNext, stop, reduceOption_cons]
  | cons first rest inductionHypothesis =>
    simp only [List.cons_append, feedAll, reduceOption_cons, inductionHypothesis]

/-! Sequences that are cut off. -/

/-- A run of continuing items reaches up to an item that continues nothing. It
may stop at the end of the sequence as well. -/
theorem run_stops {run after : List α} (continuing : ∀ item ∈ run, continues item = true)
    (stops : ∀ next ∈ after.head?, continues next = false) :
    (run ++ after).takeWhile continues = run ∧ (run ++ after).dropWhile continues = after := by
  rw [List.takeWhile_append_of_pos continuing, List.dropWhile_append_of_pos continuing]
  cases after with
  | nil => exact ⟨List.append_nil run, rfl⟩
  | cons next rest =>
    have stop : continues next = false := stops next rfl
    rw [List.takeWhile_cons, List.dropWhile_cons, stop]
    exact ⟨List.append_nil run, rfl⟩

/-- In front of an item that continues nothing, the groups are those of the
items before it. -/
theorem closings_append {after : List α} (stops : ∀ next ∈ after.head?, continues next = false)
    (position : Nat) (before : List α) :
    closings blank continues position (before ++ after) =
      closings blank continues position before ++
        closings blank continues (position + before.length) after := by
  fun_induction closings blank continues position before with
  | case1 position => rfl
  | case2 position item rest isBlank inductionHypothesis =>
    rw [List.cons_append, closings_blank isBlank, inductionHypothesis, List.length_cons,
      Nat.add_assoc, Nat.add_comm 1]
  | case3 position item rest dense body inductionHypothesis =>
    have solid : blank item = false := Bool.eq_false_iff.mpr dense
    have whole : rest ++ after = body ++ (rest.dropWhile continues ++ after) := by
      rw [← List.append_assoc, List.takeWhile_append_dropWhile]
    have continuing : ∀ item ∈ body, continues item = true := fun _ => List.mem_takeWhile_imp
    have stop : ∀ next ∈ (rest.dropWhile continues ++ after).head?, continues next = false := by
      cases dropped : rest.dropWhile continues with
      | nil => exact stops
      | cons next more =>
        intro other first
        obtain rfl := Option.some.inj first
        have stop := List.head?_dropWhile_not continues rest
        rwa [dropped] at stop
    obtain ⟨taken, left⟩ := run_stops continuing stop
    have both : body.length + (rest.dropWhile continues).length = rest.length := by
      rw [← List.length_append, List.takeWhile_append_dropWhile]
    have length : position + 1 + body.length + (rest.dropWhile continues).length =
        position + (item :: rest).length := by
      rw [List.length_cons]
      omega
    rw [List.cons_append, whole, closings_group solid, taken, left, inductionHypothesis, length]
    rfl

/-- The groups do not depend on the position at which the sequence stands. They
are moved as a whole. -/
theorem closings_values (first second : Nat) (items : List α) :
    (closings blank continues first items).map Prod.snd =
      (closings blank continues second items).map Prod.snd := by
  fun_induction closings blank continues first items generalizing second with
  | case1 first => rw [closings_nil]
  | case2 first item rest isBlank inductionHypothesis =>
    rw [closings_blank isBlank]
    exact inductionHypothesis (second + 1)
  | case3 first item rest dense body inductionHypothesis =>
    rw [closings_group (Bool.eq_false_iff.mpr dense), List.map_cons, List.map_cons]
    exact congrArg _ (inductionHypothesis (second + 1 + body.length))

/-- Items that all continue a first one are at most one group. The first one may
be missing, in which case the items are a group without it. -/
theorem closings_single (apart : ∀ item, continues item = true → blank item = false)
    {run : List α} (continuing : ∀ item ∈ run, continues item = true) (position : Nat)
    (first : Option α) : (closings blank continues position (first.toList ++ run)).length ≤ 1 := by
  have grouped : ∀ item : α, blank item = false → ∀ {run : List α},
      (∀ item ∈ run, continues item = true) → ∀ position,
        (closings blank continues position (item :: run)).length ≤ 1 := by
    intro item solid run continuing position
    obtain ⟨-, left⟩ := @run_stops α continues run [] continuing (by simp)
    rw [List.append_nil] at left
    rw [closings_group solid, left, closings_nil]
    exact Nat.le_refl 1
  have alone : ∀ position, (closings blank continues position run).length ≤ 1 := by
    intro position
    cases run with
    | nil => simp
    | cons item rest =>
      obtain ⟨here, later⟩ := List.forall_mem_cons.mp continuing
      exact grouped item (apart item here) later position
  cases first with
  | none => exact alone position
  | some item =>
    cases solid : blank item with
    | true =>
      rw [Option.toList_some, List.singleton_append, closings_blank solid]
      exact alone _
    | false => exact grouped item solid continuing position

/-- Items are a run that continues what is before them, or end with an item that
starts afresh and a run behind it. -/
theorem last_start (continues : α → Bool) (items : List α) :
    (∀ item ∈ items, continues item = true) ∨
      ∃ before start run, items = before ++ start :: run ∧ continues start = false ∧
        ∀ item ∈ run, continues item = true := by
  induction items with
  | nil => exact .inl (fun _ member => absurd member List.not_mem_nil)
  | cons item rest inductionHypothesis =>
    rcases inductionHypothesis with continuing | ⟨before, start, run, rfl, starts, continuing⟩
    · cases here : continues item with
      | true => exact .inl (List.forall_mem_cons.mpr ⟨here, continuing⟩)
      | false => exact .inr ⟨[], item, rest, rfl, here, continuing⟩
    · exact .inr ⟨item :: before, start, run, rfl, starts, continuing⟩

/-- A sequence that is cut off, in the middle of an item or between two, keeps
its groups but for the last one, which may be cut off too. What is left of an
item continues what is before it if the item does. -/
theorem closings_cut (apart : ∀ item, continues item = true → blank item = false)
    (position : Nat) (kept : List α) (part : Option α) (rest : List α)
    (alike : ∀ item ∈ part, ∃ whole ∈ rest.head?, continues whole = continues item) :
    ∃ front more last, closings blank continues position (kept ++ rest) = front ++ more ∧
      closings blank continues position (kept ++ part.toList) = front ++ last ∧ last.length ≤ 1 := by
  by_cases starts : ∃ item ∈ part, continues item = false
  · obtain ⟨item, rfl, starts⟩ := starts
    obtain ⟨whole, first, same⟩ := alike item rfl
    have stops : ∀ next ∈ rest.head?, continues next = false := by
      intro next head
      rw [Option.some.inj (head.symm.trans first), same, starts]
    have stops' : ∀ next ∈ (some item).toList.head?, continues next = false := by
      intro next head
      rw [← Option.some.inj head]
      exact starts
    refine ⟨_, _, _, closings_append stops position kept, closings_append stops' position kept, ?_⟩
    exact closings_single apart (by simp : ∀ item ∈ [], continues item = true) _ (some item)
  · have continuing : ∀ item ∈ part.toList, continues item = true := by
      intro item member
      by_contra other
      exact starts ⟨item, Option.mem_toList.mp member, Bool.eq_false_iff.mpr other⟩
    rcases last_start continues kept with all | ⟨before, start, run, rfl, fresh, all⟩
    · refine ⟨[], _, _, rfl, rfl, ?_⟩
      exact closings_single apart (List.forall_mem_append.mpr ⟨all, continuing⟩) position none
    · have stops : ∀ others, ∀ next ∈ (start :: others).head?, continues next = false := by
        rintro others next head
        rw [← Option.some.inj head]
        exact fresh
      rw [List.append_assoc, List.append_assoc]
      refine ⟨_, _, _, closings_append (stops _) position before,
        closings_append (stops _) position before, ?_⟩
      exact closings_single apart (List.forall_mem_append.mpr ⟨all, continuing⟩) _ (some start)

end

end Tracey.Grouping
