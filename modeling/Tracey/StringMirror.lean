import Tracey.WriterJournal

/-!
# The reader's strings are the inverse of the writer's table

A reader that has read everything written so far knows a string under an id
exactly when the table gives that id to a string, and then it knows the stored
form of that string. So an id resolves to its string as soon as it is returned.
-/

namespace Tracey.FxtWriter

open FiniteMap Journal

/-- The reader knows strings only under ids that have been handed out. Ids are
handed out in order, so that these are the ones below the next. -/
def Confined (w : FxtWriter) : Prop :=
  ∀ id value, w.reader.strings id = some value →
    1 ≤ id.toNat ∧ id.toNat < w.nextStringId.toNat

/-- The reader of a new writer knows no string at all. -/
theorem confined_fresh : Confined {} := by
  intro id value known
  cases known

/-- Interning announces only ids that have been handed out. A reclaimed id has
been handed out before. -/
theorem Interned.confined {w w' : FxtWriter} {s : Text} {id : UInt16} (agree : StringsAgree w)
    (confined : Confined w) (interned : Interned w s w' id) : Confined w' := by
  cases interned with
  | empty => exact confined
  | hit => exact confined
  | fresh _ nonblank unknown room table next emitted threads =>
    have positive := agree.next_pos
    have bumped : w'.nextStringId.toNat = w.nextStringId.toNat + 1 := by
      rw [next, UInt16.toNat_add]
      change (w.nextStringId.toNat + 1) % 65536 = _
      omega
    intro found value known
    rw [string_reader emitted] at known
    by_cases newest : found = w.nextStringId
    · subst newest
      omega
    · rw [Function.update_of_ne newest] at known
      have bound := confined found value known
      omega
  | evicted _ old nonblank unknown full owner table next emitted threads =>
    intro found value known
    rw [string_reader emitted] at known
    rw [next]
    by_cases reclaimed : found = 1
    · subst reclaimed
      exact agree.range old 1 owner
    · rw [Function.update_of_ne reclaimed] at known
      exact confined found value known

/-- The table and the reader agree, and the reader knows nothing else. Both
directions are needed to call them inverse. -/
structure StringsMirror (w : FxtWriter) : Prop where
  agree : StringsAgree w
  confined : Confined w

/-- Whatever leaves the strings alone keeps the mirror of them. Threads, events
and names of processes are among it. -/
theorem StringsMirror.of_same {w w' : FxtWriter} (mirror : StringsMirror w)
    (same : SameStrings w w') : StringsMirror w' where
  agree := mirror.agree.of_same same.table same.next same.reader
  confined := by
    intro id value known
    rw [same.reader] at known
    rw [same.next]
    exact mirror.confined id value known

/-- Interning keeps the mirror: the record that it writes tells the reader what
the table has taken up. -/
theorem StringsMirror.intern {w : FxtWriter} (mirror : StringsMirror w) (s : Text) :
    StringsMirror (w.intern s) :=
  have interned := internString_interned mirror.agree s
  ⟨interned.agree mirror.agree, interned.confined mirror.agree mirror.confined⟩

/-- The reader's strings are the inverse of the table. A string is known to the
reader in its stored form. -/
theorem StringsMirror.inverse {w : FxtWriter} (mirror : StringsMirror w) (id : UInt16)
    (value : Text) : w.reader.strings id = some value ↔
      ∃ s, w.stringTable.lookup s = some id ∧ value = effective s := by
  constructor
  · intro known
    obtain ⟨lower, upper⟩ := mirror.confined id value known
    obtain ⟨s, owned⟩ := mirror.agree.used id lower upper
    have stored := mirror.agree.stored s id owned
    rw [known] at stored
    exact ⟨s, owned, Option.some.inj stored⟩
  · rintro ⟨s, owned, rfl⟩
    exact mirror.agree.stored s id owned

/-- An id resolves as soon as it is returned, and a known string writes nothing.
For the empty string the id is 0, which stands for it without a record. -/
theorem StringsMirror.returned {w : FxtWriter} (mirror : StringsMirror w) (s : Text) :
    (w.intern s).reader.resolve (w.internString s).2 = some (effective s) ∧
      ((w.stringTable.lookup s).isSome → w.intern s = w) := by
  have interned := internString_interned mirror.agree s
  refine ⟨interned.stands.resolves (mirror.intern s).agree, ?_⟩
  intro known
  obtain ⟨id, owned⟩ := Option.isSome_iff_exists.mp known
  exact congrArg Prod.fst (internString_known mirror.agree owned)

/-- After any calls the tables agree, also at each string interned on the way.
In between, an event or a name may refer to the strings at once. -/
theorem afterCalls_mirror (calls : List WriterCall) :
    StringsMirror (afterCalls calls) ∧
      ∀ w s, (w, s) ∈ stringJournal calls → StringsMirror w := by
  obtain ⟨final, within⟩ := (stringJournal_leads calls).law (fun _ _ => True)
    (fun _ w => StringsMirror w) (fun _ _ _ same mirror => mirror.of_same same)
    (fun _ _ s _ mirror => mirror.intern s) (fun _ _ => trivial) ⟨strings_fresh, confined_fresh⟩
  refine ⟨final, ?_⟩
  intro w s member
  obtain ⟨before, after, split⟩ := List.append_of_mem member
  exact within before w s after split

/-- In every state reached by calls, distinct strings hold distinct ids out of
those handed out, one entry for each, and the reader's strings are the inverse
of the table. Whenever a string was interned, its id resolved to it at once, and
a known string wrote nothing. -/
theorem string_tables_inverse (calls : List WriterCall) :
    (1 ≤ (afterCalls calls).nextStringId.toNat ∧ (afterCalls calls).nextStringId.toNat ≤ 32768) ∧
      OneOwner (afterCalls calls).stringTable ∧
      (∀ s id, (afterCalls calls).stringTable.lookup s = some id →
        1 ≤ id.toNat ∧ id.toNat < (afterCalls calls).nextStringId.toNat) ∧
      (afterCalls calls).stringTable.keys.length + 1 = (afterCalls calls).nextStringId.toNat ∧
      (∀ id value, (afterCalls calls).reader.strings id = some value ↔
        ∃ s, (afterCalls calls).stringTable.lookup s = some id ∧ value = effective s) ∧
      ∀ w s, (w, s) ∈ stringJournal calls →
        (w.internString s).1.reader.resolve (w.internString s).2 = some (effective s) ∧
          ((w.stringTable.lookup s).isSome → (w.internString s).1 = w) := by
  obtain ⟨final, within⟩ := afterCalls_mirror calls
  refine ⟨⟨final.agree.next_pos, final.agree.next_le⟩, final.agree.distinct, final.agree.range,
    final.agree.size, final.inverse, ?_⟩
  intro w s member
  exact (within w s member).returned s

end Tracey.FxtWriter
