import Mathlib

/-!
# Journals

A journal of a run lists the steps of one kind, each with the state it was taken
in. Between two of them the run may do anything that leaves the part of the
state alone that these steps are about. A law about that part and the journal so
far, kept by each step, holds whenever a step is taken and in the end.

Keys that join a table and leave it are ordered by seniority: the one that
joined longest ago comes first.
-/

namespace Tracey.Journal

variable {σ ι : Type*}

/-- The journal leads from one state to another: each step starts from a state
that is the same, as far as the steps are concerned, as the one before it left. -/
def Leads (same : σ → σ → Prop) (step : σ → ι → σ) : σ → List (σ × ι) → σ → Prop
  | start, [], final => same start final
  | start, (state, input) :: rest, final =>
    same start state ∧ Leads same step (step state input) rest final

section

variable {same : σ → σ → Prop} {step : σ → ι → σ}

/-- One step makes a journal of one entry. Nothing happens before or behind it. -/
theorem Leads.single (reflexive : ∀ state, same state state) (state : σ) (input : ι) :
    Leads same step state [(state, input)] (step state input) :=
  ⟨reflexive state, reflexive (step state input)⟩

/-- A journal may start from any state that is the same. -/
theorem Leads.begin (transitive : ∀ a b c, same a b → same b c → same a c) {start middle final : σ}
    {journal : List (σ × ι)} (before : same start middle)
    (leads : Leads same step middle journal final) : Leads same step start journal final := by
  cases journal with
  | nil => exact transitive _ _ _ before leads
  | cons entry rest => exact ⟨transitive _ _ _ before leads.1, leads.2⟩

/-- A journal that goes on where another one ends makes one journal with it.
Induct over the first; its last state is the one the second starts from. -/
theorem Leads.append (transitive : ∀ a b c, same a b → same b c → same a c)
    {start middle final : σ} {first second : List (σ × ι)}
    (begun : Leads same step start first middle)
    (continued : Leads same step middle second final) :
    Leads same step start (first ++ second) final := by
  induction first generalizing start with
  | nil => exact Leads.begin transitive begun continued
  | cons entry rest inductionHypothesis => exact ⟨begun.1, inductionHypothesis begun.2⟩

/-- A journal may end in any state that is the same. -/
theorem Leads.finish (transitive : ∀ a b c, same a b → same b c → same a c)
    {start middle final : σ} {journal : List (σ × ι)} (leads : Leads same step start journal middle)
    (after : same middle final) : Leads same step start journal final := by
  rw [← List.append_nil journal]
  exact leads.append transitive after

/-- What is left of a journal behind one of its entries. The entry's own step
has been taken. -/
theorem Leads.behind {start final state : σ} {input : ι} {before after : List (σ × ι)}
    (leads : Leads same step start (before ++ (state, input) :: after) final) :
    Leads same step (step state input) after final := by
  induction before generalizing start with
  | nil => exact leads.2
  | cons entry rest inductionHypothesis => exact inductionHypothesis leads.2

/-- A law that every fitting step keeps holds at every entry and in the end.

Induct over the journal; the law speaks of the entries that are past. -/
theorem Leads.carries (Fit : σ → ι → Prop) {Law : List (σ × ι) → σ → Prop}
    (unseen : ∀ past state state', same state state' → Law past state → Law past state')
    (kept : ∀ past state input, Fit state input → Law past state →
      Law (past ++ [(state, input)]) (step state input))
    {start final : σ} {past journal : List (σ × ι)} (leads : Leads same step start journal final)
    (fits : ∀ entry ∈ journal, Fit entry.1 entry.2) (law : Law past start) :
    Law (past ++ journal) final ∧ ∀ before state input after,
      journal = before ++ (state, input) :: after → Law (past ++ before) state := by
  induction journal generalizing start past with
  | nil =>
    refine ⟨by simpa using unseen past _ _ leads law, ?_⟩
    intro before state input after split
    exact absurd split (by simp)
  | cons entry rest inductionHypothesis =>
    obtain ⟨state, input⟩ := entry
    obtain ⟨before, continued⟩ := leads
    obtain ⟨fit, others⟩ := List.forall_mem_cons.mp fits
    have here : Law past state := unseen past _ _ before law
    obtain ⟨atEnd, within⟩ :=
      inductionHypothesis continued others (kept past state input fit here)
    refine ⟨by simpa using atEnd, ?_⟩
    intro earlier other taken after split
    cases earlier with
    | nil =>
      simp only [List.nil_append, List.cons.injEq, Prod.mk.injEq] at split
      obtain ⟨⟨rfl, rfl⟩, -⟩ := split
      simpa using here
    | cons first others =>
      simp only [List.cons_append, List.cons.injEq] at split
      obtain ⟨rfl, split⟩ := split
      simpa using within others other taken after split

/-- A law that every fitting step keeps, from the empty journal on. The law may
speak of the whole past, which grows by one entry with each step. -/
theorem Leads.law (Fit : σ → ι → Prop) (Law : List (σ × ι) → σ → Prop)
    (unseen : ∀ past state state', same state state' → Law past state → Law past state')
    (kept : ∀ past state input, Fit state input → Law past state →
      Law (past ++ [(state, input)]) (step state input))
    {start final : σ} {journal : List (σ × ι)} (leads : Leads same step start journal final)
    (fits : ∀ entry ∈ journal, Fit entry.1 entry.2) (law : Law [] start) :
    Law journal final ∧ ∀ before state input after,
      journal = before ++ (state, input) :: after → Law before state :=
  leads.carries Fit unseen kept fits law

end

section Seniority

variable {κ : Type*}

/-- The keys by seniority after some have left and one has joined. The newcomer
is the least senior one. -/
def join (order : List κ) (stays : κ → Bool) (newcomer : κ) : List κ :=
  order.filter stays ++ [newcomer]

/-- A key is in the order behind a newcomer if it stays or is the newcomer. -/
theorem mem_join {order : List κ} {stays : κ → Bool} {newcomer key : κ} :
    key ∈ join order stays newcomer ↔ (key ∈ order ∧ stays key = true) ∨ key = newcomer := by
  rw [join, List.mem_append, List.mem_filter, List.mem_singleton]

/-- A newcomer that was not there keeps the keys distinct, whoever leaves for
it. -/
theorem nodup_join {order : List κ} {stays : κ → Bool} {newcomer : κ} (distinct : order.Nodup)
    (new : newcomer ∉ order) : (join order stays newcomer).Nodup := by
  refine List.nodup_append.mpr ⟨distinct.filter stays, List.nodup_singleton newcomer, ?_⟩
  rintro key member other single rfl
  rw [List.mem_singleton.mp single] at member
  exact new (List.mem_filter.mp member).1

/-- When none leaves, the newcomer joins behind all others. -/
theorem join_all {order : List κ} {stays : κ → Bool} {newcomer : κ}
    (all : ∀ key ∈ order, stays key = true) : join order stays newcomer = order ++ [newcomer] := by
  rw [join, List.filter_eq_self.mpr all]

/-- When only the most senior key leaves, the others keep their order. This is
the order of a queue. -/
theorem join_senior {first : κ} {others : List κ} {stays : κ → Bool} {newcomer : κ}
    (leaves : stays first = false) (all : ∀ key ∈ others, stays key = true) :
    join (first :: others) stays newcomer = others ++ [newcomer] := by
  rw [join, List.filter_cons_of_neg (by simp [leaves]), List.filter_eq_self.mpr all]

end Seniority

end Tracey.Journal
