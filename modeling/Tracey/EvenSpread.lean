import Mathlib

/-!
# Spreading a total evenly over the items that consume it

The items are visited in order, and each of them is placed at the part of the
total used up before it. A consuming item then uses up an equal share of what is
left, rounded down, between itself and the consumers after it. No item is placed
beyond the total, the places never decrease, and the last consumer uses up the
total.
-/

namespace Tracey.EvenSpread

variable {α : Type*} (consumes : α → Bool) (total : Nat)

/-- What one item uses up when a part is used and these items follow. It is an
equal part of what is left, rounded down, if the item consumes. -/
def share (used : Nat) (item : α) (rest : List α) : Nat :=
  if consumes item then (total - used) / (rest.countP consumes + 1) else 0

/-- Every item with its place. An item's own share comes behind its place. -/
def spread : Nat → List α → List (α × Nat)
  | _, [] => []
  | used, item :: rest =>
    (item, used) :: spread (used + share consumes total used item rest) rest

/-- A share does not exceed what is left. So the total is never exceeded,
however many items follow. -/
theorem share_le (used : Nat) (item : α) (rest : List α) :
    share consumes total used item rest ≤ total - used := by
  unfold share
  split
  · exact Nat.div_le_self _ _
  · exact Nat.zero_le _

/-- An item that does not consume uses up nothing. -/
theorem share_idle {item : α} (idle : consumes item = false) (used : Nat) (rest : List α) :
    share consumes total used item rest = 0 := by
  rw [share, idle]
  rfl

/-- Before as many consumers as the total, everything rounds down to nothing.
The total is used up by consumers further behind. -/
theorem share_few (item : α) {rest : List α} (few : total ≤ rest.countP consumes) :
    share consumes total 0 item rest = 0 := by
  unfold share
  split
  · apply Nat.div_eq_of_lt
    omega
  · rfl

variable {consumes total}

/-- Spreading changes neither the items nor their order. -/
theorem spread_items (used : Nat) (items : List α) :
    (spread consumes total used items).map Prod.fst = items := by
  induction items generalizing used with
  | nil => rfl
  | cons item rest inductionHypothesis =>
    rw [spread, List.map_cons, inductionHypothesis]

/-- Every place lies between what was used before and the total. The total
itself is a place only behind the last consumer, or of shares that are empty. -/
theorem spread_bounds {used : Nat} (enough : used ≤ total) (items : List α) :
    ∀ placed ∈ spread consumes total used items, used ≤ placed.2 ∧ placed.2 ≤ total := by
  induction items generalizing used with
  | nil =>
    intro placed member
    cases member
  | cons item rest inductionHypothesis =>
    have bound := share_le consumes total used item rest
    intro placed member
    rcases List.mem_cons.mp member with rfl | later
    · exact ⟨Nat.le_refl _, enough⟩
    · obtain ⟨lower, upper⟩ := inductionHypothesis (by omega) placed later
      exact ⟨by omega, upper⟩

/-- The places never decrease. Items keep their order, also where shares are
empty. -/
theorem spread_sorted {used : Nat} (enough : used ≤ total) (items : List α) :
    (spread consumes total used items).Pairwise (fun first second => first.2 ≤ second.2) := by
  induction items generalizing used with
  | nil => exact List.Pairwise.nil
  | cons item rest inductionHypothesis =>
    have bound := share_le consumes total used item rest
    refine List.pairwise_cons.mpr ⟨?_, inductionHypothesis (by omega)⟩
    intro placed later
    have lower := (spread_bounds (by omega) rest placed later).1
    dsimp only
    omega

/-- An item is placed at the start when no consumer comes before it, and also
when at least as many consumers come after it as there is to spread.

Induct over the items before it. -/
theorem spread_position (items : List α) {used : Nat} {placed : α × Nat}
    (member : placed ∈ spread consumes total used items) :
    ∃ front back, items = front ++ placed.1 :: back ∧
      ((∀ item ∈ front, consumes item = false) → placed.2 = used) ∧
      (used = 0 → total ≤ back.countP consumes → placed.2 = 0) := by
  induction items generalizing used with
  | nil => cases member
  | cons item rest inductionHypothesis =>
    rcases List.mem_cons.mp member with rfl | later
    · exact ⟨[], rest, rfl, fun _ => rfl, fun start _ => start⟩
    · obtain ⟨front, back, rfl, unused, few⟩ := inductionHypothesis later
      refine ⟨item :: front, back, rfl, ?_, ?_⟩
      · intro idle
        have first := share_idle consumes total (idle item List.mem_cons_self) used
          (front ++ placed.1 :: back)
        rw [unused (fun other inside => idle other (List.mem_cons_of_mem item inside)), first]
        rfl
      · intro start many
        subst start
        have more : total ≤ (front ++ placed.1 :: back).countP consumes := by
          simp only [List.countP_append, List.countP_cons]
          omega
        apply few _ many
        rw [share_few consumes total item more]

/-! What the consumers use up. -/

variable (consumes total)

/-- What each consumer uses up, in order, when a part is used before. Items that
do not consume have none. -/
def shares : Nat → List α → List Nat
  | _, [] => []
  | used, item :: rest =>
    if consumes item then
      share consumes total used item rest :: shares (used + share consumes total used item rest) rest
    else shares used rest

variable {consumes total}

/-- A consumer takes its share, and the others share what is left behind it. -/
theorem shares_consumer {item : α} (consumer : consumes item = true) (used : Nat) (rest : List α) :
    shares consumes total used (item :: rest) = share consumes total used item rest ::
      shares consumes total (used + share consumes total used item rest) rest := if_pos consumer

/-- An item that does not consume leaves everything to the others. -/
theorem shares_idle {item : α} (idle : consumes item = false) (used : Nat) (rest : List α) :
    shares consumes total used (item :: rest) = shares consumes total used rest := by
  rw [shares, idle]
  rfl

/-- An item that does not consume does not count. -/
theorem countP_idle {item : α} (idle : consumes item = false) (rest : List α) :
    (item :: rest).countP consumes = rest.countP consumes :=
  List.countP_cons_of_neg (by rw [idle]; exact Bool.false_ne_true)

/-- There is a share for each consumer. -/
theorem length_shares (used : Nat) (items : List α) :
    (shares consumes total used items).length = items.countP consumes := by
  induction items generalizing used with
  | nil => rfl
  | cons item rest inductionHypothesis =>
    cases consumer : consumes item with
    | true =>
      rw [shares_consumer consumer, List.length_cons, inductionHypothesis,
        List.countP_cons_of_pos consumer]
    | false =>
      rw [shares_idle consumer, inductionHypothesis, countP_idle consumer]

/-- Whatever is left goes to the consumers, if there are any. Nothing is lost by
rounding, since the last consumer gets all that is left. -/
theorem shares_sum {used : Nat} (enough : used ≤ total) {items : List α}
    (consumed : 0 < items.countP consumes) :
    (shares consumes total used items).sum = total - used := by
  induction items generalizing used with
  | nil => exact absurd consumed (Nat.lt_irrefl 0)
  | cons item rest inductionHypothesis =>
    cases consumer : consumes item with
    | false =>
      rw [countP_idle consumer] at consumed
      rw [shares_idle consumer, inductionHypothesis enough consumed]
    | true =>
      have bound := share_le consumes total used item rest
      rw [shares_consumer consumer, List.sum_cons]
      rcases Nat.eq_zero_or_pos (rest.countP consumes) with alone | more
      · -- The last consumer takes all that is left.
        have last : share consumes total used item rest = total - used := by
          rw [share, if_pos consumer, alone, Nat.div_one]
        have ended : shares consumes total (used + share consumes total used item rest) rest = [] :=
          List.eq_nil_of_length_eq_zero ((length_shares _ rest).trans alone)
        rw [ended, last]
        rfl
      · rw [inductionHypothesis (by omega) more]
        omega

/-- If what is left is at least so much and at most so much for each consumer,
so is every share: what is left behind a share is again so much for each of the
others. -/
theorem shares_between {lower upper used : Nat} {items : List α}
    (least : lower * items.countP consumes ≤ total - used)
    (most : total - used ≤ upper * items.countP consumes) :
    ∀ taken ∈ shares consumes total used items, lower ≤ taken ∧ taken ≤ upper := by
  induction items generalizing used with
  | nil =>
    intro taken member
    cases member
  | cons item rest inductionHypothesis =>
    cases consumer : consumes item with
    | false =>
      rw [countP_idle consumer] at least most
      rw [shares_idle consumer]
      exact inductionHypothesis least most
    | true =>
      rw [List.countP_cons_of_pos consumer] at least most
      have part : share consumes total used item rest =
          (total - used) / (rest.countP consumes + 1) := if_pos consumer
      have atLeast : lower ≤ share consumes total used item rest := by
        rw [part]
        exact (Nat.le_div_iff_mul_le (Nat.succ_pos _)).mpr least
      have atMost : share consumes total used item rest ≤ upper := by
        rw [part]
        exact Nat.div_le_of_le_mul (Nat.mul_comm upper _ ▸ most)
      have floor := Nat.div_mul_le_self (total - used) (rest.countP consumes + 1)
      have ceiling := Nat.lt_mul_div_succ (total - used) (Nat.succ_pos (rest.countP consumes))
      rw [← part] at floor ceiling
      rw [shares_consumer consumer]
      generalize share consumes total used item rest = taken at atLeast atMost floor ceiling ⊢
      have left : total - (used + taken) = total - used - taken := Nat.sub_add_eq total used taken
      have leastLeft : lower * rest.countP consumes ≤ total - (used + taken) := by
        have others := Nat.mul_le_mul_right (rest.countP consumes) atLeast
        rw [Nat.mul_succ] at floor
        omega
      have mostLeft : total - (used + taken) ≤ upper * rest.countP consumes := by
        rw [Nat.mul_succ] at most
        rcases Nat.eq_or_lt_of_le atMost with same | less
        · rw [same] at left ⊢
          omega
        · have others := Nat.mul_le_mul_right (rest.countP consumes) less
          rw [Nat.mul_comm, Nat.mul_succ] at ceiling
          rw [Nat.succ_eq_add_one] at others
          omega
      intro other member
      rcases List.mem_cons.mp member with rfl | later
      · exact ⟨atLeast, atMost⟩
      · exact inductionHypothesis leastLeft mostLeft other later

/-- Every share of the whole is the equal part, rounded down or up. Two shares
differ by one at most. -/
theorem shares_even (items : List α) :
    ∀ taken ∈ shares consumes total 0 items, taken = total / items.countP consumes ∨
      taken = total ⌈/⌉ items.countP consumes := by
  intro taken member
  have consumed : 0 < items.countP consumes := by
    have positive := List.length_pos_of_mem member
    rwa [length_shares] at positive
  have least := Nat.div_mul_le_self total (items.countP consumes)
  have most : total ≤ total ⌈/⌉ items.countP consumes * items.countP consumes := by
    rw [Nat.mul_comm]
    exact le_smul_ceilDiv consumed
  have leastLeft : total / items.countP consumes * items.countP consumes ≤ total - 0 := least
  obtain ⟨atLeast, atMost⟩ := shares_between leastLeft most taken member
  have apart : total ⌈/⌉ items.countP consumes ≤ total / items.countP consumes + 1 := by
    rw [Nat.ceilDiv_eq_add_pred_div, ← Nat.add_div_right total consumed]
    exact Nat.div_le_div_right (by omega)
  omega

/-- An item is placed behind what the consumers before it use up. Only these
move an item from the place where the spread began. -/
theorem spread_shares (used : Nat) {items : List α} {front back : List (α × Nat)} {placed : α × Nat}
    (split : spread consumes total used items = front ++ placed :: back) :
    placed.2 = used +
      ((shares consumes total used items).take (front.countP (fun other => consumes other.1))).sum := by
  induction items generalizing used front with
  | nil => cases front <;> cases split
  | cons item rest inductionHypothesis =>
    cases front with
    | nil =>
      rw [spread, List.nil_append, List.cons.injEq] at split
      rw [← split.1]
      rfl
    | cons first others =>
      rw [spread, List.cons_append, List.cons.injEq] at split
      obtain ⟨rfl, split⟩ := split
      have later := inductionHypothesis _ split
      cases consumer : consumes item with
      | true =>
        have count : ((item, used) :: others).countP (fun other => consumes other.1) =
            others.countP (fun other => consumes other.1) + 1 := List.countP_cons_of_pos consumer
        rw [shares_consumer consumer, count, List.take_succ_cons, List.sum_cons, later]
        omega
      | false =>
        have count : ((item, used) :: others).countP (fun other => consumes other.1) =
            others.countP (fun other => consumes other.1) :=
          List.countP_cons_of_neg (by rw [consumer]; exact Bool.false_ne_true)
        rw [share_idle consumes total consumer, Nat.add_zero] at later
        rw [shares_idle consumer, count, later]

end Tracey.EvenSpread
