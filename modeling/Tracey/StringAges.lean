import Tracey.StringReferences
import Tracey.WriterJournal

/-!
# Which string is evicted

A new string that finds all ids used evicts another one, meant to be the one
inserted longest ago. The writer looks for the smallest id instead. That is the
oldest entry as long as every id has been handed out once; afterwards it is the
entry inserted last, since the string that evicted another one has taken over
the smallest id.
-/

namespace Tracey.FxtWriter

open FiniteMap Journal ArrivalOrder

/-- Whether interning the string inserts it. Whether an id is left for it does
not matter. -/
def inserts (w : FxtWriter) (s : Text) : Bool := s ≠ [] && (w.stringTable.lookup s).isNone

/-- Whether interning the string needs the id of another one. There is none left
for it otherwise. -/
def crowds (w : FxtWriter) (s : Text) : Bool := w.inserts s && maxStringId < w.nextStringId

/-- The strings in the table by age, after one more has been interned. Strings
that have been evicted leave the order. -/
def age (order : List Text) (entry : FxtWriter × Text) : List Text :=
  if entry.1.inserts entry.2 then
    join order (fun s => ((entry.1.intern entry.2).stringTable.lookup s).isSome) entry.2
  else order

/-- The strings in the table, the one inserted longest ago first. An eviction
ought to hit the first of them. -/
def ages (journal : List (FxtWriter × Text)) : List Text := journal.foldl age []

/-- The different strings that a part of a journal inserts. A string that comes
back after an eviction is inserted again. -/
def insertions (journal : List (FxtWriter × Text)) : List Text :=
  ((journal.filter (fun entry => entry.1.inserts entry.2)).map Prod.snd).dedup

/-- The oldest string is evicted: whatever leaves the table was inserted longest
ago, and a string that was inserted when all ids were used keeps its id, and
writes nothing when it is interned again, until 32766 further strings have been
inserted. -/
structure EvictsOldest (calls : List WriterCall) : Prop where
  oldest : ∀ before w s after, stringJournal calls = before ++ (w, s) :: after →
    ∀ old, (w.stringTable.lookup old).isSome → (w.intern s).stringTable.lookup old = none →
      (ages before).head? = some old
  kept : ∀ before w s after, stringJournal calls = before ++ (w, s) :: after → w.crowds s = true →
    (∀ between w' next later, after = between ++ (w', next) :: later →
      (insertions between).length < 32766 → w'.internString s = (w', (w.internString s).2)) ∧
    ((insertions after).length < 32766 →
      (afterCalls calls).internString s = (afterCalls calls, (w.internString s).2))

/-- The table holds the strings by age: numbered in order before anything is
evicted, and afterwards with the newest one under the id 1. -/
structure Aged (past : List (FxtWriter × Text)) (w : FxtWriter) : Prop where
  agree : StringsAgree w
  distinct : (ages past).Nodup
  held : ∀ s, s ∈ ages past ↔ (w.stringTable.lookup s).isSome
  count : (ages past).length + 1 = w.nextStringId.toNat
  calm : w.stringIdWarningIssued = false → ∀ s id, w.stringTable.lookup s = some id →
    (ages past)[id.toNat - 1]? = some s
  warned : w.stringIdWarningIssued = true → w.nextStringId.toNat = 32768 ∧
    ∀ s, w.stringTable.lookup s = some 1 → (ages past).getLast? = some s

/-- The empty table of a new writer is in order. -/
theorem aged_fresh : Aged [] {} where
  agree := strings_fresh
  distinct := List.nodup_nil
  held := by
    intro s
    constructor
    · intro member
      cases member
    · intro owned
      cases owned
  count := rfl
  calm := by
    intro _ s id owned
    cases owned
  warned := by
    intro warned
    cases warned

/-- The ages stay right over whatever leaves the strings alone. No string comes
or goes. -/
theorem Aged.of_same {past : List (FxtWriter × Text)} {w w' : FxtWriter} (aged : Aged past w)
    (same : SameStrings w w') : Aged past w' where
  agree := aged.agree.of_same same.table same.next same.reader
  distinct := aged.distinct
  held := by rw [same.table]; exact aged.held
  count := by rw [same.next]; exact aged.count
  calm := by rw [same.table, same.warned]; exact aged.calm
  warned := by rw [same.table, same.warned, same.next]; exact aged.warned

/-- Behind one more entry the ages are those before it, with the entry added. -/
theorem ages_concat (past : List (FxtWriter × Text)) (entry : FxtWriter × Text) :
    ages (past ++ [entry]) = age (ages past) entry := by
  rw [ages, List.foldl_append]
  rfl

section Step

variable {past : List (FxtWriter × Text)} {w w' : FxtWriter} {s : Text} {id : UInt16}

/-- A string that is not inserted changes no age. Using a string does not make
it younger. -/
theorem ages_unchanged (known : w.inserts s = false) : ages (past ++ [(w, s)]) = ages past := by
  rw [ages_concat, age, known]
  exact if_neg Bool.false_ne_true

/-- When a string is inserted, the strings in the table go on being ordered. -/
theorem Aged.inserted (aged : Aged past w) (reached : w.intern s = w') (nonblank : s ≠ [])
    (unknown : w.stringTable.lookup s = none) (present : (w'.stringTable.lookup s).isSome)
    (others : ∀ t, t ≠ s → (w'.stringTable.lookup t).isSome → (w.stringTable.lookup t).isSome) :
    ages (past ++ [(w, s)]) =
        join (ages past) (fun t => (w'.stringTable.lookup t).isSome) s ∧
      s ∉ ages past ∧ (ages (past ++ [(w, s)])).Nodup ∧
      ∀ t, t ∈ ages (past ++ [(w, s)]) ↔ (w'.stringTable.lookup t).isSome := by
  have inserted : w.inserts s = true := by simp [inserts, nonblank, unknown]
  have new : s ∉ ages past := by
    intro member
    have owned := (aged.held s).mp member
    rw [unknown] at owned
    cases owned
  have joined : ages (past ++ [(w, s)]) =
      join (ages past) (fun t => (w'.stringTable.lookup t).isSome) s := by
    rw [ages_concat, age, if_pos inserted, reached]
  refine ⟨joined, new, ?_, ?_⟩
  · rw [joined]
    exact nodup_join aged.distinct new
  · intro t
    rw [joined, mem_join]
    constructor
    · rintro (⟨-, stays⟩ | rfl)
      · exact stays
      · exact present
    · intro owned
      by_cases same : t = s
      · exact .inr same
      · exact .inl ⟨(aged.held t).mpr (others t same owned), owned⟩

/-- A new string with an unused id is the youngest. All others keep their
places. -/
theorem Aged.fresh (aged : Aged past w) (reached : w.intern s = w') (nonblank : s ≠ [])
    (unknown : w.stringTable.lookup s = none) (room : w.nextStringId.toNat ≤ 32767)
    (table : w'.stringTable = w.stringTable.insert s w.nextStringId)
    (next : w'.nextStringId = w.nextStringId + 1)
    (emitted : Extends w w' [.string w.nextStringId s])
    (quiet : w'.stringIdWarningIssued = w.stringIdWarningIssued) :
    Aged (past ++ [(w, s)]) w' := by
  have others : ∀ t, t ≠ s → w'.stringTable.lookup t = w.stringTable.lookup t := by
    intro t different
    rw [table, AList.lookup_insert_ne different]
  obtain ⟨joined, new, distinct, held⟩ := aged.inserted reached nonblank unknown
    (by rw [table, AList.lookup_insert]; rfl) (fun t different => (others t different ▸ id))
  have behind : ages (past ++ [(w, s)]) = ages past ++ [s] := by
    rw [joined]
    refine join_all ?_
    intro t member
    have different : t ≠ s := fun same => new (same ▸ member)
    rw [others t different]
    exact (aged.held t).mp member
  have count := aged.count
  have bumped : w'.nextStringId.toNat = w.nextStringId.toNat + 1 := by
    rw [next, UInt16.toNat_add]
    change (w.nextStringId.toNat + 1) % 65536 = _
    omega
  refine ⟨aged.agree.fresh nonblank unknown room table next emitted, distinct, held, ?_, ?_, ?_⟩
  · rw [behind, List.length_append, List.length_singleton, bumped, count]
  · intro calm t found owned
    rw [table] at owned
    rw [behind]
    rcases (lookup_insert_iff _ _ _ _ _).mp owned with ⟨rfl, rfl⟩ | ⟨-, before⟩
    · have place : w.nextStringId.toNat - 1 = (ages past).length := by omega
      rw [place, List.getElem?_append_right (Nat.le_refl _), Nat.sub_self]
      rfl
    · have placed := aged.calm (quiet.symm.trans calm) t found before
      rw [List.getElem?_append_left (List.getElem?_eq_some_iff.mp placed).1]
      exact placed
  · intro warned
    have full := (aged.warned (quiet.symm.trans warned)).1
    omega

/-- A new string that evicts another one is the youngest, and has the id 1. The
one that had this id leaves, wherever it is in the order. -/
theorem Aged.evicted {old : Text} (aged : Aged past w) (reached : w.intern s = w')
    (nonblank : s ≠ []) (unknown : w.stringTable.lookup s = none)
    (full : w.nextStringId.toNat = 32768) (owner : w.stringTable.lookup old = some 1)
    (table : w'.stringTable = (w.stringTable.erase old).insert s 1)
    (next : w'.nextStringId = w.nextStringId) (emitted : Extends w w' [.string 1 s])
    (warned : w'.stringIdWarningIssued = true) : Aged (past ++ [(w, s)]) w' := by
  have agree' := aged.agree.evicted nonblank unknown full owner table next emitted
  have newest : w'.stringTable.lookup s = some 1 := by rw [table, AList.lookup_insert]
  have others : ∀ t, t ≠ s → ((w'.stringTable.lookup t).isSome = true ↔
      t ≠ old ∧ (w.stringTable.lookup t).isSome = true) := by
    intro t different
    rw [table, AList.lookup_insert_ne different]
    by_cases gone : t = old
    · subst gone
      simp [AList.lookup_erase]
    · simp [AList.lookup_erase_ne gone, gone]
  obtain ⟨joined, new, distinct, held⟩ := aged.inserted reached nonblank unknown
    (by rw [newest]; rfl) (fun t different owned => ((others t different).mp owned).2)
  have oldHeld : old ∈ ages past := (aged.held old).mpr (by rw [owner]; rfl)
  have behind : ages (past ++ [(w, s)]) = (ages past).erase old ++ [s] := by
    rw [joined, join, aged.distinct.erase_eq_filter]
    congr 1
    refine List.filter_congr ?_
    intro t member
    have different : t ≠ s := fun same => new (same ▸ member)
    rw [Bool.eq_iff_iff, others t different, bne_iff_ne]
    exact and_iff_left ((aged.held t).mp member)
  have count := aged.count
  have removed := List.length_erase_of_mem oldHeld
  have positive := List.length_pos_of_mem oldHeld
  refine ⟨agree', distinct, held, ?_, ?_, ?_⟩
  · rw [behind, List.length_append, List.length_singleton, removed, next]
    omega
  · intro calm
    rw [warned] at calm
    cases calm
  · intro _
    refine ⟨next ▸ full, ?_⟩
    intro t owned
    rw [behind, agree'.distinct t s 1 owned newest, List.getLast?_append]
    rfl

/-- Interning keeps the strings ordered by age. Nothing is inserted where the
string is known or empty. -/
theorem Aged.intern (aged : Aged past w) (s : Text) : Aged (past ++ [(w, s)]) (w.intern s) := by
  have interned := internString_interned aged.agree s
  have reached : w.intern s = (w.internString s).1 := rfl
  rw [reached]
  generalize (w.internString s).1 = w' at interned reached
  generalize (w.internString s).2 = id at interned
  cases interned with
  | empty blank =>
    have same : ages (past ++ [(w, s)]) = ages past :=
      ages_unchanged (by simp [inserts, blank])
    exact ⟨aged.agree, same ▸ aged.distinct, same ▸ aged.held, same ▸ aged.count, same ▸ aged.calm,
      same ▸ aged.warned⟩
  | hit _ known =>
    have same : ages (past ++ [(w, s)]) = ages past :=
      ages_unchanged (by simp [inserts, known])
    exact ⟨aged.agree, same ▸ aged.distinct, same ▸ aged.held, same ▸ aged.count, same ▸ aged.calm,
      same ▸ aged.warned⟩
  | fresh _ nonblank unknown room table next emitted threads calm =>
    exact aged.fresh reached nonblank unknown room table next emitted calm
  | evicted _ old nonblank unknown full owner table next emitted threads warned =>
    exact aged.evicted reached nonblank unknown full owner table next emitted warned

/-- A string that finds all ids used evicts the owner of the id 1 and takes it
over. -/
theorem crowds_evicts (agree : StringsAgree w) (crowded : w.crowds s = true) :
    ∃ old, w.stringTable.lookup old = some 1 ∧
      (w.intern s).stringTable = (w.stringTable.erase old).insert s 1 ∧
      w.stringTable.lookup s = none ∧ (w.internString s).2 = 1 ∧
      (w.intern s).nextStringId.toNat = 32768 ∧ (w.intern s).stringIdWarningIssued = true := by
  obtain ⟨⟨nonblank, unknown⟩, full⟩ : (s ≠ [] ∧ w.stringTable.lookup s = none) ∧
      maxStringId < w.nextStringId := by simpa [crowds, inserts] using crowded
  have limit : 32767 < w.nextStringId.toNat := UInt16.lt_iff_toNat_lt.mp full
  have interned := internString_interned agree s
  rw [FxtWriter.intern]
  generalize (w.internString s).1 = w' at interned
  generalize (w.internString s).2 = id at interned
  cases interned with
  | empty blank => exact absurd blank nonblank
  | hit _ known => exact absurd rfl (ne_of_lookup known unknown)
  | fresh _ nonblank unknown room table next emitted threads => omega
  | evicted _ old nonblank unknown full owner table next emitted threads warned =>
    exact ⟨old, owner, table, unknown, rfl, next ▸ full, warned⟩

/-- What leaves the table had the id 1, and all ids were used. No other string
can be lost. -/
theorem lost_owner (agree : StringsAgree w) {old : Text}
    (owned : (w.stringTable.lookup old).isSome)
    (lost : (w.intern s).stringTable.lookup old = none) :
    w.crowds s = true ∧ w.stringTable.lookup old = some 1 := by
  obtain ⟨found, owned⟩ := Option.isSome_iff_exists.mp owned
  obtain ⟨rfl, nonblank, unknown, full, -, -⟩ :=
    (internString_interned agree s).displaced owned lost
  have used : maxStringId < w.nextStringId := UInt16.lt_iff_toNat_lt.mpr (by
    rw [full]
    decide)
  exact ⟨by simp [crowds, inserts, nonblank, unknown, used], owned⟩

/-- Before anything has been evicted, the oldest string leaves. It was the first
to get an id. -/
theorem Aged.oldest_leaves (aged : Aged past w) (quiet : w.stringIdWarningIssued = false)
    {old : Text} (owner : w.stringTable.lookup old = some 1) : (ages past).head? = some old := by
  have first := aged.calm quiet old 1 owner
  rw [List.head?_eq_getElem?]
  exact first

/-- Once something has been evicted, the string evicted next is the youngest
one. -/
theorem Aged.youngest_leaves (aged : Aged past w) (warned : w.stringIdWarningIssued = true)
    {old : Text} (owner : w.stringTable.lookup old = some 1) : (ages past).head? ≠ some old := by
  obtain ⟨full, last⟩ := aged.warned warned
  have youngest := last old owner
  have count := aged.count
  have distinct := aged.distinct
  generalize ages past = order at youngest count distinct
  intro oldest
  cases order with
  | nil => cases oldest
  | cons first others =>
    obtain rfl : first = old := Option.some.inj oldest
    cases others with
    | nil =>
      simp only [List.length_cons, List.length_nil] at count
      omega
    | cons second rest =>
      rw [List.getLast?_cons_cons] at youngest
      exact (List.nodup_cons.mp distinct).1 (List.mem_of_getLast? youngest)

end Step

/-- In every run the strings are ordered by age at each string that is interned.
This is an invariant of the journal, and holds in the end as well. -/
theorem stringJournal_aged (calls : List WriterCall) :
    Aged (stringJournal calls) (afterCalls calls) ∧
      ∀ before w s after, stringJournal calls = before ++ (w, s) :: after → Aged before w :=
  (stringJournal_leads calls).law (fun _ _ => True) Aged
    (fun _ _ _ same aged => aged.of_same same) (fun _ _ s _ aged => aged.intern s)
    (fun _ _ => trivial) aged_fresh

/-- No string needs the id of another one after one has been evicted. It is
about the states in which strings are interned. -/
def EvictsOnce (journal : List (FxtWriter × Text)) : Prop :=
  ∀ entry ∈ journal, entry.1.crowds entry.2 = true → entry.1.stringIdWarningIssued = false

/-- A string that holds its id when all ids are used and this has been warned
of. Only a further eviction could take the id from it. -/
structure Holds (s : Text) (id : UInt16) (w : FxtWriter) : Prop where
  agree : StringsAgree w
  owned : w.stringTable.lookup s = some id
  full : w.nextStringId.toNat = 32768
  warned : w.stringIdWarningIssued = true

/-- A string holds its id over whatever leaves the strings alone. -/
theorem Holds.of_same {s : Text} {id : UInt16} {w w' : FxtWriter} (holds : Holds s id w)
    (same : SameStrings w w') : Holds s id w' where
  agree := holds.agree.of_same same.table same.next same.reader
  owned := same.table ▸ holds.owned
  full := same.next ▸ holds.full
  warned := same.warned ▸ holds.warned

/-- A string keeps its id while nothing is evicted. The hypothesis rules a
further eviction out, since the first one has been warned of. -/
theorem Holds.intern {s next : Text} {id : UInt16} {w : FxtWriter} (holds : Holds s id w)
    (spared : w.crowds next = true → w.stringIdWarningIssued = false) :
    Holds s id (w.intern next) := by
  have calm : w.crowds next = false := by
    by_contra crowded
    have quiet := spared (by simpa using crowded)
    rw [holds.warned] at quiet
    cases quiet
  have interned := internString_interned holds.agree next
  have full : maxStringId < w.nextStringId := UInt16.lt_iff_toNat_lt.mpr (by
    rw [holds.full]
    decide)
  rw [FxtWriter.intern]
  generalize (w.internString next).1 = w' at interned
  generalize (w.internString next).2 = taken at interned
  cases interned with
  | empty => exact holds
  | hit => exact holds
  | fresh _ nonblank unknown room table next emitted threads =>
    have full := holds.full
    omega
  | evicted _ old nonblank unknown =>
    simp [crowds, inserts, nonblank, unknown, full] at calm

/-- A run that always evicts the oldest string evicts only once. The second
eviction would hit the string inserted last. -/
theorem EvictsOldest.once {calls : List WriterCall} (evicts : EvictsOldest calls) :
    EvictsOnce (stringJournal calls) := by
  rintro ⟨w, s⟩ member crowded
  obtain ⟨before, after, split⟩ := List.append_of_mem member
  have aged := (stringJournal_aged calls).2 before w s after split
  cases warned : w.stringIdWarningIssued with
  | false => rfl
  | true =>
    obtain ⟨old, owner, table, unknown, -⟩ := crowds_evicts aged.agree crowded
    have lost : (w.intern s).stringTable.lookup old = none := by
      rw [table, AList.lookup_insert_ne (ne_of_lookup owner unknown), AList.lookup_erase]
    have oldest := evicts.oldest before w s after split old (by rw [owner]; rfl) lost
    exact absurd oldest (aged.youngest_leaves warned owner)

/-- A run evicts the oldest string every time if and only if it evicts only
once: no string needs the id of another one after the first eviction. -/
theorem evictsOldest_iff (calls : List WriterCall) :
    EvictsOldest calls ↔ EvictsOnce (stringJournal calls) := by
  constructor
  · exact fun evicts => evicts.once
  · intro once
    have within := (stringJournal_aged calls).2
    constructor
    · intro before w s after split old owned lost
      have aged := within before w s after split
      obtain ⟨crowded, owner⟩ := lost_owner aged.agree owned lost
      exact aged.oldest_leaves (once (w, s) (by rw [split]; simp) crowded) owner
    · intro before w s after split crowded
      have aged := within before w s after split
      obtain ⟨old, -, table, -, taken, full, warned⟩ := crowds_evicts aged.agree crowded
      rw [taken]
      have begins : Holds s 1 (w.intern s) :=
        ⟨(aged.intern s).agree, by rw [table, AList.lookup_insert], full, warned⟩
      have leads := stringJournal_leads calls
      rw [split] at leads
      obtain ⟨atEnd, later⟩ := leads.behind.law
        (fun w next => w.crowds next = true → w.stringIdWarningIssued = false)
        (fun _ w => Holds s 1 w) (fun _ _ _ same holds => holds.of_same same)
        (fun _ _ next spared holds => holds.intern spared)
        (fun entry member => once entry (by rw [split]; simp [member])) begins
      refine ⟨?_, fun _ => internString_known atEnd.agree atEnd.owned⟩
      intro between w' next rest parts _
      have holds := later between w' next rest parts
      exact internString_known holds.agree holds.owned

/-- A string that has not been heard when all ids are used needs the id of
another one. -/
theorem crowds_late {calls : List WriterCall} {s : Text} (nonblank : s ≠ [])
    (many : 32767 ≤ (heard calls).length) (new : s ∉ heard calls) :
    (afterCalls calls).crowds s = true := by
  have numbered := afterCalls_numbered calls
  have unknown : (afterCalls calls).stringTable.lookup s = none := by
    cases owned : (afterCalls calls).stringTable.lookup s with
    | none => rfl
    | some id => exact absurd (numbered.known s id owned).1 new
  have used : maxStringId < (afterCalls calls).nextStringId := UInt16.lt_iff_toNat_lt.mpr (by
    rw [numbered.next, Nat.min_eq_right many]
    decide)
  simp [crowds, inserts, nonblank, unknown, used]

/-- Two strings interned at the end of a run. Each one is noted with the state
it finds. -/
theorem stringJournal_interns (past : List WriterCall) (s t : Text) :
    stringJournal (past ++ [.internString s, .internString t]) =
      stringJournal past ++ [(afterCalls past, s), ((afterCalls past).intern s, t)] := by
  rw [stringJournal, journalFrom_append]
  rfl

/-- Interning a string that is not empty is hearing it. -/
theorem heard_intern (past : List WriterCall) {s : Text} (nonblank : s ≠ []) :
    heard (past ++ [.internString s]) = arrive (heard past) s := by
  rw [heard_concat, ← hear_nonblank _ nonblank]
  rfl

/-- Where the oldest string is evicted, no two strings in a row evict one. The
second of them would evict the first. -/
theorem EvictsOldest.once_only {past : List WriterCall} {s t : Text}
    (evicts : EvictsOldest (past ++ [.internString s, .internString t]))
    (first : (afterCalls past).crowds s = true) :
    (afterCalls (past ++ [.internString s])).crowds t = false := by
  have agree := (afterCalls_coherent past).strings
  obtain ⟨-, -, -, -, -, -, warned⟩ := crowds_evicts agree first
  have reached : afterCalls (past ++ [.internString s]) = (afterCalls past).intern s :=
    afterCalls_concat _ _
  have quiet := evicts.once ((afterCalls past).intern s, t) (by
    rw [stringJournal_interns]
    exact List.mem_append_right _ (List.mem_cons_of_mem _ List.mem_cons_self))
  rw [reached]
  by_contra second
  rw [quiet (by simpa using second)] at warned
  cases warned

/-- With two strings more than ids, the second one evicts the first instead of
the oldest. -/
theorem evictsOldest_not_twice :
    ¬ EvictsOldest (useIds ++ [.internString (text "first"), .internString (text "second")]) := by
  intro evicts
  have strings := heard_useIds
  have firstNew : text "first" ∉ heard useIds := strings ▸ not_mem_useIds (by decide)
  have count : (heard useIds).length = 32767 := by
    rw [strings, List.length_map, List.length_range]
  have extended : heard (useIds ++ [.internString (text "first")]) =
      arrive (heard useIds) (text "first") := heard_intern useIds (by decide)
  have crowded := crowds_late (by decide) (Nat.le_of_eq count.symm) firstNew
  have later : (afterCalls (useIds ++ [.internString (text "first")])).crowds (text "second") =
      true := by
    refine crowds_late (by decide) ?_ ?_
    · have grown := (arrive_grown (heard useIds) (text "first")).length_le
      rw [extended]
      omega
    · rw [extended]
      intro arrived
      rcases mem_arrive.mp arrived with old | same
      · exact absurd old (strings ▸ not_mem_useIds (by decide))
      · exact absurd same (by decide)
  rw [evicts.once_only crowded] at later
  cases later

end Tracey.FxtWriter
