import Tracey.TraceReader

/-!
# The writer's string table and the reader's

The ids in the table are exactly those handed out, each held by one string, and
the reader's string for an id is the stored form of the string that holds it.
Interning keeps this on all its paths: a known string, a new string with an
unused id, and a new string that takes over the smallest id once all are used.
Since every id is then held, the smallest one is always the id 1.

`Interned` says once what a call of `internString` can do; the rest of the
development argues from its cases.
-/

namespace Tracey.FxtWriter

open FiniteMap

/-- Interning leaves the thread table and what belongs to it alone. Together
with the agreement of the strings this lets the two tables be treated apart. -/
structure SameThreads (w w' : FxtWriter) : Prop where
  threadTable : w'.threadTable = w.threadTable
  namedProcesses : w'.namedProcesses = w.namedProcesses
  nextThreadSlot : w'.nextThreadSlot = w.nextThreadSlot

/-- An operation that touches nothing leaves the threads alone. -/
theorem SameThreads.refl (w : FxtWriter) : SameThreads w w := ⟨rfl, rfl, rfl⟩

/-- Two operations in a row that leave the threads alone do so together. -/
theorem SameThreads.trans {first second third : FxtWriter} (begun : SameThreads first second)
    (continued : SameThreads second third) : SameThreads first third :=
  ⟨continued.threadTable.trans begun.threadTable,
    continued.namedProcesses.trans begun.namedProcesses,
    continued.nextThreadSlot.trans begun.nextThreadSlot⟩

/-- The string table agrees with the ids handed out and with the reader: ids are
below the next free one, no two strings share one, and the reader's string for
an id is the stored form of its owner. -/
structure StringsAgree (w : FxtWriter) : Prop where
  next_pos : 1 ≤ w.nextStringId.toNat
  next_le : w.nextStringId.toNat ≤ 32768
  nonempty : w.stringTable.lookup [] = none
  range : ∀ s id, w.stringTable.lookup s = some id →
    1 ≤ id.toNat ∧ id.toNat < w.nextStringId.toNat
  distinct : OneOwner w.stringTable
  used : ∀ id : UInt16, 1 ≤ id.toNat → id.toNat < w.nextStringId.toNat →
    ∃ s, w.stringTable.lookup s = some id
  size : w.stringTable.keys.length + 1 = w.nextStringId.toNat
  stored : Mirrors effective w.stringTable w.reader.strings

/-- What one call of `internString` can do. The empty string and a known one
write nothing; a new one gets the next id, or id 1 once all ids are used. -/
inductive Interned (w : FxtWriter) (s : Text) : FxtWriter → UInt16 → Prop where
  | empty (blank : s = []) : Interned w s w 0
  | hit (id : UInt16) (known : w.stringTable.lookup s = some id) : Interned w s w id
  | fresh (w' : FxtWriter) (nonblank : s ≠ []) (unknown : w.stringTable.lookup s = none)
      (room : w.nextStringId.toNat ≤ 32767)
      (table : w'.stringTable = w.stringTable.insert s w.nextStringId)
      (next : w'.nextStringId = w.nextStringId + 1)
      (emitted : Extends w w' [.string w.nextStringId s]) (threads : SameThreads w w')
      (calm : w'.stringIdWarningIssued = w.stringIdWarningIssued) :
      Interned w s w' w.nextStringId
  | evicted (w' : FxtWriter) (old : Text) (nonblank : s ≠ [])
      (unknown : w.stringTable.lookup s = none) (full : w.nextStringId.toNat = 32768)
      (owner : w.stringTable.lookup old = some 1)
      (table : w'.stringTable = (w.stringTable.erase old).insert s 1)
      (next : w'.nextStringId = w.nextStringId)
      (emitted : Extends w w' [.string 1 s]) (threads : SameThreads w w')
      (warned : w'.stringIdWarningIssued = true) : Interned w s w' 1

/-- A new writer has used no id, and its reader knows no string. Its first id
will be 1. -/
theorem strings_fresh : StringsAgree {} where
  next_pos := by decide
  next_le := by decide
  nonempty := rfl
  range := by intro s id known; cases known
  distinct := oneOwner_empty
  used := by
    intro id positive small
    change id.toNat < 1 at small
    omega
  size := rfl
  stored := mirrors_empty effective _

/-- The agreement only depends on the table, the counter and the reader's
strings. -/
theorem StringsAgree.of_same {w w' : FxtWriter} (agree : StringsAgree w)
    (table : w'.stringTable = w.stringTable) (next : w'.nextStringId = w.nextStringId)
    (strings : w'.reader.strings = w.reader.strings) : StringsAgree w' where
  next_pos := next ▸ agree.next_pos
  next_le := next ▸ agree.next_le
  nonempty := table ▸ agree.nonempty
  range := by rw [table, next]; exact agree.range
  distinct := by rw [table]; exact agree.distinct
  used := by rw [table, next]; exact agree.used
  size := by rw [table, next]; exact agree.size
  stored := by rw [table, strings]; exact agree.stored

/-- One pass that keeps the smaller entry ends at a smallest entry. If several
entries were smallest it would be the first of them. -/
theorem foldl_smallest (entries : List (Σ _ : Text, UInt16)) (first : Σ _ : Text, UInt16) :
    let found := entries.foldl
      (fun victim entry => if entry.2 < victim.2 then entry else victim) first
    found ∈ first :: entries ∧ ∀ entry ∈ first :: entries, found.2 ≤ entry.2 := by
  induction entries generalizing first with
  | nil => simp
  | cons next rest inductionHypothesis =>
    simp only [List.foldl_cons]
    by_cases smaller : next.2 < first.2
    · simp only [smaller, if_true]
      obtain ⟨member, least⟩ := inductionHypothesis next
      refine ⟨List.mem_cons_of_mem first member, ?_⟩
      intro entry inside
      rcases List.mem_cons.mp inside with rfl | inside
      · exact UInt16.le_trans (least next List.mem_cons_self) (UInt16.le_of_lt smaller)
      · exact least entry inside
    · simp only [smaller, if_false]
      obtain ⟨member, least⟩ := inductionHypothesis first
      constructor
      · rcases List.mem_cons.mp member with same | inside
        · rw [same]
          exact List.mem_cons_self
        · exact List.mem_cons_of_mem first (List.mem_cons_of_mem next inside)
      · intro entry inside
        rcases List.mem_cons.mp inside with rfl | inside
        · exact least entry List.mem_cons_self
        · rcases List.mem_cons.mp inside with rfl | inside
          · exact UInt16.le_trans (least first List.mem_cons_self) (UInt16.not_lt.mp smaller)
          · exact least entry (List.mem_cons_of_mem first inside)

/-- Once some id is used, the entry reclaimed is the owner of the id 1: every
used id has an owner, and 1 is the smallest id. -/
theorem victim_owns_one {w : FxtWriter} (agree : StringsAgree w)
    (started : 2 ≤ w.nextStringId.toNat) :
    ∃ old, victim w.stringTable = some ⟨old, 1⟩ ∧ w.stringTable.lookup old = some 1 := by
  have one : (1 : UInt16).toNat = 1 := rfl
  obtain ⟨owner, owned⟩ := agree.used 1 (by rw [one]) (by rw [one]; omega)
  have ownerEntry : (⟨owner, 1⟩ : Σ _ : Text, UInt16) ∈ w.stringTable.entries :=
    AList.mem_lookup_iff.mp owned
  cases listed : w.stringTable.entries with
  | nil => rw [listed] at ownerEntry; cases ownerEntry
  | cons first rest =>
    obtain ⟨member, least⟩ := foldl_smallest rest first
    have found : victim w.stringTable = some (rest.foldl
        (fun victim entry => if entry.2 < victim.2 then entry else victim) first) := by
      rw [victim, listed]
    generalize rest.foldl (fun victim entry => if entry.2 < victim.2 then entry else victim)
      first = entry at found member least
    obtain ⟨old, id⟩ := entry
    rw [listed] at ownerEntry
    have held : w.stringTable.lookup old = some id :=
      AList.mem_lookup_iff.mpr (by rw [listed]; exact member)
    have lower : 1 ≤ id.toNat := (agree.range old id held).1
    have upper : id.toNat ≤ 1 := UInt16.le_iff_toNat_le.mp (least _ ownerEntry)
    have same : id = 1 := UInt16.toNat_inj.mp (by rw [one]; omega)
    subst same
    exact ⟨old, found, held⟩

/-- Emitting a string record appends it, whether or not a warning is printed. A
warning does not touch any table. -/
theorem emitStringRecord_effect (w : FxtWriter) (id : UInt16) (s : Text) :
    (w.emitStringRecord id s).stringTable = w.stringTable ∧
      (w.emitStringRecord id s).nextStringId = w.nextStringId ∧
      Extends w (w.emitStringRecord id s) [.string id s] ∧
      SameThreads w (w.emitStringRecord id s) ∧
      (w.emitStringRecord id s).stringIdWarningIssued = w.stringIdWarningIssued := by
  unfold emitStringRecord
  split <;> exact ⟨rfl, rfl, rfl, ⟨rfl, rfl, rfl⟩, rfl⟩

/-- Warning about the ids touches neither table nor trace, and the warning has
been issued behind it, whether now or before. -/
theorem warnStringIds_effect (w : FxtWriter) :
    w.warnStringIds.stringTable = w.stringTable ∧ w.warnStringIds.nextStringId = w.nextStringId ∧
      w.warnStringIds.records = w.records ∧ SameThreads w w.warnStringIds ∧
      w.warnStringIds.stringIdWarningIssued = true := by
  unfold warnStringIds
  split
  · next warned => exact ⟨rfl, rfl, rfl, SameThreads.refl w, warned⟩
  · exact ⟨rfl, rfl, rfl, ⟨rfl, rfl, rfl⟩, rfl⟩

/-- A known string keeps its id and nothing is written. -/
theorem internString_known {w : FxtWriter} (agree : StringsAgree w) {s : Text} {id : UInt16}
    (known : w.stringTable.lookup s = some id) : w.internString s = (w, id) := by
  have nonblank : s ≠ [] := ne_of_lookup known agree.nonempty
  simp only [internString, if_neg nonblank, known]

/-- Interning takes one of the four listed steps. The agreement of the tables is
needed for the last one: the victim of an eviction exists, and its id is 1. -/
theorem internString_interned {w : FxtWriter} (agree : StringsAgree w) (s : Text) :
    Interned w s (w.internString s).1 (w.internString s).2 := by
  by_cases blank : s = []
  · rw [internString, if_pos blank]
    exact .empty blank
  cases known : w.stringTable.lookup s with
  | some id =>
    simp only [internString, if_neg blank, known]
    exact .hit id known
  | none =>
    have limit : maxStringId.toNat = 32767 := rfl
    by_cases room : w.nextStringId ≤ maxStringId
    · have below : w.nextStringId.toNat ≤ 32767 := limit ▸ UInt16.le_iff_toNat_le.mp room
      simp only [internString, if_neg blank, known, if_pos room]
      obtain ⟨table, next, emitted, threads, calm⟩ := emitStringRecord_effect
        { w with
          nextStringId := w.nextStringId + 1
          stringTable := w.stringTable.insert s w.nextStringId } w.nextStringId s
      exact .fresh _ blank known below table next emitted
        ⟨threads.threadTable, threads.namedProcesses, threads.nextThreadSlot⟩ calm
    · have above : ¬ w.nextStringId.toNat ≤ 32767 := fun le => room
        (UInt16.le_iff_toNat_le.mpr (limit ▸ le))
      have full : w.nextStringId.toNat = 32768 := by
        have bound := agree.next_le
        omega
      obtain ⟨old, found, owner⟩ := victim_owns_one agree (by omega)
      obtain ⟨warnedTable, warnedNext, warnedRecords, warnedThreads, warned⟩ :=
        warnStringIds_effect w
      simp only [internString, if_neg blank, known, if_neg room, warnedTable, found]
      obtain ⟨table, next, emitted, threads, calm⟩ := emitStringRecord_effect
        { w.warnStringIds with stringTable := (w.stringTable.erase old).insert s 1 } 1 s
      refine .evicted _ old blank known full owner table (next.trans warnedNext) ?_
        (warnedThreads.trans
          ⟨threads.threadTable, threads.namedProcesses, threads.nextThreadSlot⟩) (calm.trans warned)
      rw [Extends] at emitted ⊢
      rw [emitted]
      exact congrArg (· ++ _) warnedRecords

/-- Only string records are written, and at most one. The record carries the
whole string, which is cut when it is encoded. -/
theorem Interned.extends {w w' : FxtWriter} {s : Text} {id : UInt16} (interned : Interned w s w' id) :
    ∃ news, Extends w w' news ∧ (news = [] ∨ news = [.string id s]) := by
  cases interned with
  | empty => exact ⟨[], Extends.refl w, .inl rfl⟩
  | hit => exact ⟨[], Extends.refl w, .inl rfl⟩
  | fresh _ nonblank unknown room table next emitted threads => exact ⟨_, emitted, .inr rfl⟩
  | evicted _ old nonblank unknown full owner table next emitted threads =>
    exact ⟨_, emitted, .inr rfl⟩

/-- However interning ends, it leaves the threads alone. -/
theorem Interned.sameThreads {w w' : FxtWriter} {s : Text} {id : UInt16}
    (interned : Interned w s w' id) : SameThreads w w' := by
  cases interned with
  | empty => exact SameThreads.refl w
  | hit => exact SameThreads.refl w
  | fresh _ nonblank unknown room table next emitted threads => exact threads
  | evicted _ old nonblank unknown full owner table next emitted threads => exact threads

/-- A reader's threads are not touched by interning. -/
theorem Interned.readerThreads {w w' : FxtWriter} {s : Text} {id : UInt16}
    (interned : Interned w s w' id) : w'.reader.threads = w.reader.threads := by
  obtain ⟨news, grown, rfl | rfl⟩ := interned.extends
  · rw [grown.reader]
    rfl
  · rw [grown.reader]
    rfl

/-- Interning shows no event and no kernel object. A viewer shows strings only
where something refers to them. -/
theorem Interned.unseen {w w' : FxtWriter} {s : Text} {id : UInt16}
    (interned : Interned w s w' id) : seenSince w w' = [] := by
  obtain ⟨news, grown, rfl | rfl⟩ := interned.extends
  · rw [grown.seenSince]
    rfl
  · rw [grown.seenSince]
    rfl

/-- A string record changes the reader's entry for its id and no other. If the
id had an owner before, it is replaced. -/
theorem string_reader {w w' : FxtWriter} {s : Text} {id : UInt16}
    (emitted : Extends w w' [.string id s]) :
    w'.reader.strings = Function.update w.reader.strings id (some (effective s)) := by
  rw [emitted.reader]
  rfl

/-- Giving the next id to a new string keeps the tables in agreement. The next
id has never been announced before. -/
theorem StringsAgree.fresh {w w' : FxtWriter} {s : Text} (agree : StringsAgree w)
    (nonblank : s ≠ []) (unknown : w.stringTable.lookup s = none)
    (room : w.nextStringId.toNat ≤ 32767)
    (table : w'.stringTable = w.stringTable.insert s w.nextStringId)
    (next : w'.nextStringId = w.nextStringId + 1)
    (emitted : Extends w w' [.string w.nextStringId s]) : StringsAgree w' := by
  have bumped : w'.nextStringId.toNat = w.nextStringId.toNat + 1 := by
    rw [next, UInt16.toNat_add]
    change (w.nextStringId.toNat + 1) % 65536 = _
    omega
  have positive := agree.next_pos
  have unowned : Unowned w.stringTable w.nextStringId := by
    intro t held
    have bound := (agree.range t _ held).2
    omega
  constructor
  case next_pos => omega
  case next_le => omega
  case nonempty =>
    rw [table, AList.lookup_insert_ne (Ne.symm nonblank)]
    exact agree.nonempty
  case range =>
    intro t found held
    rw [table] at held
    rcases (lookup_insert_iff _ _ _ _ _).mp held with ⟨_, rfl⟩ | ⟨_, before⟩
    · omega
    · have bound := agree.range t found before
      omega
  case distinct =>
    rw [table]
    exact agree.distinct.insert unowned s
  case used =>
    intro found lower upper
    rw [table]
    by_cases newest : found = w.nextStringId
    · exact ⟨s, by rw [newest, AList.lookup_insert]⟩
    · have different : found.toNat ≠ w.nextStringId.toNat := fun same =>
        newest (UInt16.toNat_inj.mp same)
      obtain ⟨t, held⟩ := agree.used found lower (by omega)
      exact ⟨t, (AList.lookup_insert_ne (ne_of_lookup held unknown)).trans held⟩
  case size =>
    have size := agree.size
    rw [table, length_keys_insert _ _ _ unknown]
    omega
  case stored =>
    rw [table, string_reader emitted]
    exact agree.stored.insert unowned s

/-- Giving the id of an evicted string to a new one keeps the tables in
agreement. -/
theorem StringsAgree.evicted {w w' : FxtWriter} {s old : Text} (agree : StringsAgree w)
    (nonblank : s ≠ []) (unknown : w.stringTable.lookup s = none)
    (full : w.nextStringId.toNat = 32768) (owner : w.stringTable.lookup old = some 1)
    (table : w'.stringTable = (w.stringTable.erase old).insert s 1)
    (next : w'.nextStringId = w.nextStringId) (emitted : Extends w w' [.string 1 s]) :
    StringsAgree w' := by
  have one : (1 : UInt16).toNat = 1 := rfl
  have unowned : Unowned (w.stringTable.erase old) 1 := agree.distinct.unowned_erase owner
  have erased := lookup_erase_none unknown old
  constructor
  case next_pos => exact next ▸ agree.next_pos
  case next_le => exact next ▸ agree.next_le
  case nonempty =>
    rw [table, AList.lookup_insert_ne (Ne.symm nonblank)]
    exact lookup_erase_none agree.nonempty old
  case range =>
    intro t found held
    rw [table] at held
    rw [next]
    rcases (lookup_insert_iff _ _ _ _ _).mp held with ⟨_, rfl⟩ | ⟨_, before⟩
    · omega
    · exact agree.range t found ((lookup_erase_iff _ _ _ _).mp before).2
  case distinct =>
    rw [table]
    exact (agree.distinct.erase old).insert unowned s
  case used =>
    intro found lower upper
    rw [next] at upper
    rw [table]
    by_cases reclaimed : found = 1
    · exact ⟨s, by rw [reclaimed, AList.lookup_insert]⟩
    · obtain ⟨t, held⟩ := agree.used found lower upper
      have survives : t ≠ old := by
        rintro rfl
        rw [owner] at held
        exact reclaimed (Option.some.inj held).symm
      refine ⟨t, (AList.lookup_insert_ne (ne_of_lookup held unknown)).trans ?_⟩
      exact (AList.lookup_erase_ne survives).trans held
  case size =>
    have size := agree.size
    have removed := length_keys_erase _ _ _ owner
    rw [table, next, length_keys_insert _ _ _ erased]
    omega
  case stored =>
    rw [table, string_reader emitted]
    exact (agree.stored.erase old).insert unowned s

/-- Interning keeps the tables in agreement. In the case of an eviction the
former owner of id 1 leaves both tables at once. -/
theorem Interned.agree {w w' : FxtWriter} {s : Text} {id : UInt16} (agree : StringsAgree w)
    (interned : Interned w s w' id) : StringsAgree w' := by
  cases interned with
  | empty => exact agree
  | hit => exact agree
  | fresh _ nonblank unknown room table next emitted threads =>
    exact agree.fresh nonblank unknown room table next emitted
  | evicted _ old nonblank unknown full owner table next emitted threads =>
    exact agree.evicted nonblank unknown full owner table next emitted

/-- An id stands for a string: the table's id for it, or 0 for the empty string.
It does so in this state; a later eviction may end it. -/
def Stands (w : FxtWriter) (s : Text) (id : UInt16) : Prop :=
  (s = [] ∧ id = 0) ∨ w.stringTable.lookup s = some id

/-- Interning returns an id that stands for the string. The next call of the
writer can refer to the string by it. -/
theorem Interned.stands {w w' : FxtWriter} {s : Text} {id : UInt16}
    (interned : Interned w s w' id) : Stands w' s id := by
  cases interned with
  | empty blank => exact .inl ⟨blank, rfl⟩
  | hit _ known => exact .inr known
  | fresh _ nonblank unknown room table next emitted threads =>
    right
    rw [table, AList.lookup_insert]
  | evicted _ old nonblank unknown full owner table next emitted threads =>
    right
    rw [table, AList.lookup_insert]

/-- A string that interning another takes out of the table had the id 1, which
the other then has. -/
theorem Interned.displaced {w w' : FxtWriter} {s other : Text} {id found : UInt16}
    (interned : Interned w s w' id) (owned : w.stringTable.lookup other = some found)
    (lost : w'.stringTable.lookup other = none) :
    found = 1 ∧ s ≠ [] ∧ w.stringTable.lookup s = none ∧ w.nextStringId.toNat = 32768 ∧
      w'.stringTable.lookup s = some 1 ∧ id = 1 := by
  cases interned with
  | empty => exact absurd rfl (ne_of_lookup owned lost)
  | hit => exact absurd rfl (ne_of_lookup owned lost)
  | fresh _ nonblank unknown room table next emitted threads =>
    rw [table, AList.lookup_insert_ne (ne_of_lookup owned unknown)] at lost
    exact absurd rfl (ne_of_lookup owned lost)
  | evicted _ victim nonblank unknown full owner table next emitted threads =>
    have held : w'.stringTable.lookup s = some 1 := by rw [table, AList.lookup_insert]
    rw [table, AList.lookup_insert_ne (ne_of_lookup owned unknown)] at lost
    have same : other = victim := by
      by_contra different
      rw [AList.lookup_erase_ne different] at lost
      exact absurd rfl (ne_of_lookup owned lost)
    rw [same, owner] at owned
    exact ⟨(Option.some.inj owned).symm, nonblank, unknown, full, held, rfl⟩

/-- To the reader, an id that stands for a string resolves to its stored form. A
string that fits a record is found unchanged. -/
theorem Stands.resolves {w : FxtWriter} {s : Text} {id : UInt16} (stands : Stands w s id)
    (agree : StringsAgree w) : w.reader.resolve id = some (effective s) := by
  rcases stands with ⟨rfl, rfl⟩ | known
  · rfl
  · have positive := (agree.range s id known).1
    have nonzero : id ≠ 0 := by
      rintro rfl
      exact absurd positive (by decide)
    rw [Reader.resolve_nonzero _ _ nonzero]
    exact agree.stored s id known

/-- An id that is not reclaimed: any but the smallest, and that too until the
first string is evicted. -/
def Settled (w : FxtWriter) (id : UInt16) : Prop := id ≠ 1 ∨ w.stringIdWarningIssued = false

/-- Settled ids go on standing for their strings, and a warning is not taken
back. -/
structure Retains (w w' : FxtWriter) : Prop where
  warned : w.stringIdWarningIssued = true → w'.stringIdWarningIssued = true
  stands : ∀ s id, Stands w s id → Settled w' id → Stands w' s id

/-- What is settled later was settled before. Warnings are never taken back. -/
theorem Retains.settled {w w' : FxtWriter} (retains : Retains w w') {id : UInt16}
    (settled : Settled w' id) : Settled w id := by
  rcases settled with apart | calm
  · exact .inl apart
  · cases before : w.stringIdWarningIssued with
    | false => exact .inr before
    | true =>
      rw [retains.warned before] at calm
      cases calm

/-- What stays valid over one stretch and over the next stays valid over both. A
string that is settled at the end was settled in between. -/
theorem Retains.trans {first second third : FxtWriter} (begun : Retains first second)
    (continued : Retains second third) : Retains first third where
  warned := fun before => continued.warned (begun.warned before)
  stands := fun s id stands settled =>
    continued.stands s id (begun.stands s id stands (continued.settled settled)) settled

/-- An operation that leaves the table alone, and does not warn, takes no string
away. -/
theorem Retains.of_same {w w' : FxtWriter} (table : w'.stringTable = w.stringTable)
    (calm : w'.stringIdWarningIssued = w.stringIdWarningIssued) : Retains w w' where
  warned := fun before => calm.trans before
  stands := by
    intro s id stands _
    rw [Stands, table]
    exact stands

/-- Interning only takes away the id 1, and only once it has warned. All ids
above 1 keep their strings for ever. -/
theorem Interned.retains {w w' : FxtWriter} {s : Text} {id : UInt16}
    (interned : Interned w s w' id) : Retains w w' := by
  have apart : ∀ {t found}, w.stringTable.lookup s = none → w.stringTable.lookup t = some found →
      t ≠ s := by
    rintro t found unknown known rfl
    rw [unknown] at known
    cases known
  cases interned with
  | empty => exact .of_same rfl rfl
  | hit => exact .of_same rfl rfl
  | fresh _ nonblank unknown room table next emitted threads calm =>
    refine ⟨fun before => calm.trans before, ?_⟩
    rintro t found (blank | known) _
    · exact .inl blank
    · right
      rw [table, AList.lookup_insert_ne (apart unknown known)]
      exact known
  | evicted _ old nonblank unknown full owner table next emitted threads warned =>
    refine ⟨fun _ => warned, ?_⟩
    rintro t found (blank | known) (other | calm)
    · exact .inl blank
    · exact .inl blank
    · have survives : t ≠ old := by
        rintro rfl
        rw [owner] at known
        exact other (Option.some.inj known).symm
      right
      rw [table, AList.lookup_insert_ne (apart unknown known), AList.lookup_erase_ne survives]
      exact known
    · rw [warned] at calm
      cases calm

end Tracey.FxtWriter
