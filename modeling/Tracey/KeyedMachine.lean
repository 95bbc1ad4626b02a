import Mathlib

/-!
# Machines that share nothing

A family of machines, one for each key, takes a common sequence of inputs, each
addressed to one key. Every machine answers with outputs that are marked with
its key. The machines share no state, so what one of them does in a common run
is what it does alone on its own inputs, whatever the others receive in between.
-/

namespace Tracey.KeyedMachine

variable {κ σ ε ω α : Type*}

/-- One machine on its own: its final state and all its outputs. The outputs of
all inputs are put in a row. -/
def solo (step : σ → ε → σ × List ω) : σ → List ε → σ × List ω
  | state, [] => (state, [])
  | state, input :: rest =>
    ((solo step (step state input).1 rest).1,
      (step state input).2 ++ (solo step (step state input).1 rest).2)

variable [DecidableEq κ]

/-- All machines on a common sequence of inputs. An input goes to the machine
with its key; outputs are marked with it, in the order in which they are made. -/
def run (step : κ → σ → ε → σ × List ω) : (κ → σ) → List (κ × ε) → (κ → σ) × List (κ × ω)
  | states, [] => (states, [])
  | states, (key, input) :: rest =>
    let answer := step key (states key) input
    let continued := run step (Function.update states key answer.1) rest
    (continued.1, answer.2.map (key, ·) ++ continued.2)

/-- What is marked with a key. Its order is kept. -/
def own (key : κ) (marked : List (κ × α)) : List α :=
  marked.filterMap (fun item => if item.1 = key then some item.2 else none)

/-- Among no items no key has any. -/
@[simp] theorem own_nil (key : κ) : own key ([] : List (κ × α)) = [] := rfl

/-- The items of a key in a sequence are those in its first part and then those
in its second. -/
theorem own_append (key : κ) (first second : List (κ × α)) :
    own key (first ++ second) = own key first ++ own key second := List.filterMap_append

/-- An item of the key itself stands in front of its others. -/
@[simp] theorem own_cons_self (key : κ) (item : α) (rest : List (κ × α)) :
    own key ((key, item) :: rest) = item :: own key rest := by
  simp [own]

/-- An item of another key is passed over. -/
theorem own_cons_other {key other : κ} (different : other ≠ key) (item : α)
    (rest : List (κ × α)) : own key ((other, item) :: rest) = own key rest := by
  simp [own, different]

/-- If all items are those of the key, all of them are its own. -/
@[simp] theorem own_marked_self (key : κ) (items : List α) : own key (items.map (key, ·)) = items := by
  induction items with
  | nil => rfl
  | cons item rest inductionHypothesis =>
    rw [List.map_cons, own_cons_self, inductionHypothesis]

/-- If all items are those of another key, none of them is its own. -/
theorem own_marked_other {key other : κ} (different : other ≠ key) (items : List α) :
    own key (items.map (other, ·)) = [] := by
  induction items with
  | nil => rfl
  | cons item rest inductionHypothesis =>
    rw [List.map_cons, own_cons_other different, inductionHypothesis]

/-- When every key is visited at most once, a machine has one visit or none.
This is how the threads are finished, in whatever order they come. -/
theorem own_visits (key : κ) {keys : List κ} (distinct : keys.Nodup) :
    own key (keys.map (·, ())) = if key ∈ keys then [()] else [] := by
  induction keys with
  | nil => rfl
  | cons first rest inductionHypothesis =>
    obtain ⟨fresh, others⟩ := List.nodup_cons.mp distinct
    rw [List.map_cons]
    by_cases mine : first = key
    · subst mine
      rw [own_cons_self, inductionHypothesis others, if_neg fresh, if_pos List.mem_cons_self]
    · have same : key ∈ first :: rest ↔ key ∈ rest := by simp [Ne.symm mine]
      rw [own_cons_other mine, inductionHypothesis others]
      simp only [same]

/-- In a common run every machine behaves as it does alone on its own inputs.

Induct over the inputs: an input for another key changes neither the state nor
the outputs of this one. -/
theorem run_own (step : κ → σ → ε → σ × List ω) (states : κ → σ) (inputs : List (κ × ε))
    (key : κ) :
    (run step states inputs).1 key = (solo (step key) (states key) (own key inputs)).1 ∧
      own key (run step states inputs).2 = (solo (step key) (states key) (own key inputs)).2 := by
  induction inputs generalizing states with
  | nil => exact ⟨rfl, rfl⟩
  | cons head rest inductionHypothesis =>
    obtain ⟨addressee, input⟩ := head
    obtain ⟨state, outputs⟩ :=
      inductionHypothesis (Function.update states addressee (step addressee (states addressee) input).1)
    by_cases mine : addressee = key
    · subst mine
      rw [own_cons_self]
      rw [Function.update_self] at state outputs
      refine ⟨state, ?_⟩
      simp only [run, own_append, own_marked_self, outputs]
      rfl
    · rw [own_cons_other mine]
      rw [Function.update_of_ne (Ne.symm mine)] at state outputs
      refine ⟨state, ?_⟩
      simp only [run, own_append, own_marked_other mine, outputs, List.nil_append]

/-- When one step commutes with a map of states, inputs and outputs, so does a
common run.

Induct over the inputs; replacing the state of one machine commutes with mapping
them all. -/
theorem run_map {σ' ε' ω' : Type*} {step : κ → σ → ε → σ × List ω}
    {step' : κ → σ' → ε' → σ' × List ω'} {state : σ → σ'} {input : ε → ε'} {output : ω → ω'}
    (commutes : ∀ key s e, step' key (state s) (input e) =
      (state (step key s e).1, (step key s e).2.map output))
    (states : κ → σ) (inputs : List (κ × ε)) :
    run step' (state ∘ states) (inputs.map (Prod.map id input)) =
      (state ∘ (run step states inputs).1, (run step states inputs).2.map (Prod.map id output)) := by
  induction inputs generalizing states with
  | nil => rfl
  | cons head rest inductionHypothesis =>
    obtain ⟨key, asked⟩ := head
    have next := inductionHypothesis (Function.update states key (step key (states key) asked).1)
    rw [Function.comp_update] at next
    have marked : (step key (states key) asked).2.map (fun item => (key, output item)) =
        ((step key (states key) asked).2.map (key, ·)).map (Prod.map id output) := by
      rw [List.map_map]
      rfl
    simp only [List.map_cons, Prod.map_apply, id_eq, run, Function.comp_apply, commutes, next,
      List.map_append, List.map_map] at marked ⊢
    rw [← marked]
    rfl

/-- A sum is that over the items of one key and that over the others. Any
statement about all items can so be made key by key. -/
theorem sum_parts (key : α → κ) (weight : α → Nat) (k : κ) (items : List α) :
    (items.map weight).sum = ((items.filter (fun item => key item = k)).map weight).sum +
      ((items.filter (fun item => ¬ key item = k)).map weight).sum := by
  have split := (List.filter_append_perm (fun item => key item = k) items).map weight
  rw [← List.sum_append, ← List.map_append]
  simpa using split.sum_eq.symm

/-- Taking out the items of one key leaves those of any other. Taking out one
key after the other accounts for all items. -/
theorem filter_others (key : α → κ) {k taken : κ} (other : k ≠ taken) (items : List α) :
    (items.filter (fun item => ¬ key item = taken)).filter (fun item => key item = k) =
      items.filter (fun item => key item = k) := by
  rw [List.filter_filter]
  apply List.filter_congr
  intro item _
  by_cases here : key item = k
  · simp [here, other]
  · simp [here]

/-- What is bounded for each key is bounded altogether.

Induct over the number of items: those of the first item's key are taken out on
both sides. -/
theorem sum_le_of_keys {β : Type*} (key : α → κ) (key' : β → κ) (weight : α → Nat)
    (weight' : β → Nat) {items : List α} {others : List β}
    (each : ∀ k, ((items.filter (fun item => key item = k)).map weight).sum ≤
      ((others.filter (fun item => key' item = k)).map weight').sum) :
    (items.map weight).sum ≤ (others.map weight').sum := by
  induction size : items.length using Nat.strong_induction_on generalizing items others with
  | _ size inductionHypothesis =>
    subst size
    cases items with
    | nil => exact Nat.zero_le _
    | cons first rest =>
      have shorter : ((first :: rest).filter (fun item => ¬ key item = key first)).length <
          (first :: rest).length := by
        rw [List.filter_cons_of_neg (by simp), List.length_cons]
        exact Nat.lt_succ_of_le (List.length_filter_le _ rest)
      have apart : (((first :: rest).filter (fun item => ¬ key item = key first)).map weight).sum ≤
          ((others.filter (fun item => ¬ key' item = key first)).map weight').sum := by
        apply inductionHypothesis _ shorter _ rfl
        intro k
        by_cases same : k = key first
        · have others : ((first :: rest).filter (fun item => ¬ key item = key first)).filter
              (fun item => key item = k) = [] := by
            rw [List.filter_filter, List.filter_eq_nil_iff]
            intro item _
            simp [same]
          rw [others]
          exact Nat.zero_le _
        · rw [filter_others key same, filter_others key' same]
          exact each k
      rw [sum_parts key weight (key first), sum_parts key' weight' (key first) others]
      exact Nat.add_le_add (each (key first)) apart

end Tracey.KeyedMachine
