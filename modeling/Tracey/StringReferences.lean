import Tracey.ArrivalOrder
import Tracey.WriterRuns

/-!
# String references

The writer's string table numbers strings by the order of their first arrival.
Up to the largest id each string has an id of its own for good. Every later
string takes the id 1, which it shares with the first one, and holds it until
the next of them is interned.

A record with one reference resolves, since its string has just been interned. A
record with two references may not: when both strings share the id 1, interning
the second takes the id away from the first before the record is written. This
is the only way for a reference to resolve to another string than the caller's.
-/

namespace Tracey

/-- The strings that the references of a record resolve to. A reference that
resolves to nothing is listed as such. -/
def Seen.names : Seen → List (Option Text)
  | .event _ _ category name _ _ _ => [category, name]
  | .processObject name _ => [name]
  | .threadObject name _ argName _ => [name, argName]

/-- Whether a call is given strings rather than ids. Only such calls can promise
what their records say. -/
def WriterCall.named : WriterCall → Bool
  | .eventById _ _ _ _ _ => false
  | _ => true

namespace FxtWriter

open FiniteMap ArrivalOrder

/-- Take note of a string that is interned; the empty one has no number. One
that has been heard before keeps its number. -/
def hear (seen : List Text) (s : Text) : List Text := if s = [] then seen else arrive seen s

/-- The number of a string among those that have been interned. It is the id
that the table has had for it. -/
def numberOf (seen : List Text) (s : Text) : Nat := number maxStringId.toNat seen s

/-- Two strings of one record share the id 1 and are stored differently. Of two
such strings only the later one is found under the id. -/
def Clash (seen : List Text) (first second : Text) : Prop :=
  first ≠ [] ∧ second ≠ [] ∧ numberOf seen first = 1 ∧ numberOf seen second = 1 ∧
    effective first ≠ effective second

/-- The strings that each record written by `ensureThread` refers to. The name
of the process is among them only once. -/
def threadNames (w : FxtWriter) (pid tid : UInt64) : List (List Text) :=
  match w.threadTable.lookup ⟨pid, tid⟩ with
  | some _ => []
  | none =>
    (if pid ∈ w.namedProcesses then [] else [[processLabel pid]]) ++
      [[threadLabel tid, text "process"]]

/-- The strings that each record written by a call refers to, as the caller
means it. -/
def callNames (w : FxtWriter) : WriterCall → List (List Text)
  | .preamble _ _ _ _ _ => []
  | .internString _ => []
  | .ensureThread pid tid => w.threadNames pid tid
  | .durationBegin pid tid category name _ => w.threadNames pid tid ++ [[category, name]]
  | .durationEnd pid tid category name _ => w.threadNames pid tid ++ [[category, name]]
  | .eventById _ _ _ _ _ => []
  | .processName _ name => [[name]]
  | .threadName _ _ name => [[name, text "process"]]

/-- The strings that a call interns, in order. A string may occur in it more
than once. -/
def callStrings (w : FxtWriter) (call : WriterCall) : List Text :=
  match call with
  | .internString s => [s]
  | _ => (w.callNames call).flatten

/-- The strings interned by calls that follow others. What a call interns
depends on what the writer already knows. -/
def heardFrom (w : FxtWriter) (seen : List Text) : List WriterCall → List Text
  | [] => seen
  | call :: rest => (w.perform call).heardFrom ((w.callStrings call).foldl hear seen) rest

/-- The distinct strings that calls on a new writer intern, in the order of
arrival. -/
def heard (calls : List WriterCall) : List Text := heardFrom {} [] calls

/-- The records a call writes refer to the strings the call was made with. It is
a statement about the file, read from its start. -/
def Resolved (w : FxtWriter) (call : WriterCall) : Prop :=
  (seenSince w (w.perform call)).map Seen.names =
    (w.callNames call).map (List.map (fun s => some (effective s)))

/-- No record of a call refers to two strings that clash. The strings are
numbered as they are when the call is over. -/
def Clear (seen : List Text) (names : List (List Text)) : Prop :=
  ∀ first second, [first, second] ∈ names → ¬ Clash seen first second

/-- The string table numbers the strings that have been interned: each string in
it has the number of its arrival, and the counter is as far as they go. -/
structure Numbered (seen : List Text) (w : FxtWriter) : Prop where
  next : w.nextStringId.toNat = min seen.length 32767 + 1
  known : ∀ s id, w.stringTable.lookup s = some id → s ∈ seen ∧ id.toNat = numberOf seen s
  kept : ∀ s ∈ seen, numberOf seen s ≠ 1 → ∃ id, w.stringTable.lookup s = some id

/-- A new writer numbers nothing. -/
theorem numbered_fresh : Numbered [] {} where
  next := rfl
  known := by
    intro s id known
    cases known
  kept := by
    intro s arrived
    cases arrived

/-- The numbers stay right over whatever leaves the table and its counter alone.
Events and threads do. -/
theorem Numbered.of_same {seen : List Text} {w w' : FxtWriter} (numbered : Numbered seen w)
    (table : w'.stringTable = w.stringTable) (next : w'.nextStringId = w.nextStringId) :
    Numbered seen w' where
  next := next ▸ numbered.next
  known := table ▸ numbered.known
  kept := table ▸ numbered.kept

/-- What has been heard is not forgotten when more is. New strings come behind
it. -/
theorem hear_grown (seen : List Text) (s : Text) : seen <+: hear seen s := by
  unfold hear
  split
  · exact List.prefix_refl seen
  · exact arrive_grown seen s

/-- A string that is not empty is heard as an arrival. -/
theorem hear_nonblank (seen : List Text) {s : Text} (nonblank : s ≠ []) :
    hear seen s = arrive seen s := if_neg nonblank

/-- Behind an interning the string has been heard, unless it is the empty one,
which has no number. -/
theorem mem_hear (seen : List Text) (s : Text) : s = [] ∨ s ∈ hear seen s := by
  by_cases blank : s = []
  · exact .inl blank
  · rw [hear_nonblank seen blank]
    exact .inr (mem_arrive.mpr (.inr rfl))

/-- A string that has been heard keeps its number. This is so also for strings
that share the number 1. -/
theorem numberOf_grown {seen more : List Text} (grown : seen <+: more) {s : Text}
    (arrived : s ∈ seen) : numberOf more s = numberOf seen s := number_grown grown arrived

/-- Numbers behind the first are positions. -/
theorem numberOf_eq (seen : List Text) (s : Text) :
    numberOf seen s = if position seen s < 32767 then position seen s + 1 else 1 := rfl

/-- As long as there are unused ids, a string that is not in the table is new.
No string has been evicted before that. -/
theorem Numbered.unheard {seen : List Text} {w : FxtWriter} {s : Text} (numbered : Numbered seen w)
    (agree : StringsAgree w) (unknown : w.stringTable.lookup s = none)
    (few : seen.length < 32767) : s ∉ seen := by
  intro arrived
  have place := position_lt arrived
  have counted := numbered.next
  have numbers := numberOf_eq seen s
  rw [if_pos (by omega)] at numbers
  by_cases first : position seen s = 0
  · -- Nothing is said of the number 1, but the id 1 has an owner, which can only be `s`.
    obtain ⟨owner, owned⟩ := agree.used 1 (by decide) (by change 1 < _; omega)
    obtain ⟨ownerArrived, ownerNumber⟩ := numbered.known owner 1 owned
    have ownerPlace := position_lt ownerArrived
    rw [numberOf_eq, if_pos (by omega)] at ownerNumber
    change 1 = _ at ownerNumber
    exact ne_of_lookup owned unknown (position_inj arrived (by omega)).symm
  · obtain ⟨id, held⟩ := numbered.kept s arrived (by omega)
    exact ne_of_lookup held unknown rfl

/-- Interning a new string with an unused id numbers it. Its number is its
position. -/
theorem Numbered.fresh {seen : List Text} {w w' : FxtWriter} {s : Text} (agree : StringsAgree w)
    (numbered : Numbered seen w) (unknown : w.stringTable.lookup s = none)
    (room : w.nextStringId.toNat ≤ 32767)
    (table : w'.stringTable = w.stringTable.insert s w.nextStringId)
    (next : w'.nextStringId = w.nextStringId + 1) : Numbered (arrive seen s) w' := by
  have few : seen.length < 32767 := by
    have counted := numbered.next
    omega
  have count : w.nextStringId.toNat = seen.length + 1 := by
    have counted := numbered.next
    omega
  have bumped : w'.nextStringId.toNat = seen.length + 2 := by
    rw [next, UInt16.toNat_add]
    change (w.nextStringId.toNat + 1) % 65536 = _
    omega
  have new := numbered.unheard agree unknown few
  have grown := arrive_grown seen s
  have newest := position_new new
  refine ⟨?_, ?_, ?_⟩
  · rw [bumped, arrive_new new, List.length_append, List.length_singleton]
    omega
  · intro t id held
    rw [table] at held
    rcases (lookup_insert_iff _ _ _ _ _).mp held with ⟨rfl, rfl⟩ | ⟨_, before⟩
    · refine ⟨mem_arrive.mpr (.inr rfl), ?_⟩
      rw [numberOf_eq, newest, if_pos few, count]
    · obtain ⟨arrived, same⟩ := numbered.known t id before
      exact ⟨grown.subset arrived, same.trans (numberOf_grown grown arrived).symm⟩
  · intro t arrived apart
    rw [table]
    rcases mem_arrive.mp arrived with old | rfl
    · rw [numberOf_grown grown old] at apart
      obtain ⟨id, held⟩ := numbered.kept t old apart
      have different : t ≠ s := by
        rintro rfl
        exact new old
      exact ⟨id, (AList.lookup_insert_ne different).trans held⟩
    · exact ⟨_, AList.lookup_insert _⟩

/-- Interning a new string when all ids are used gives it the number 1. The
string that had it before keeps its number among those heard, but loses its
place in the table. -/
theorem Numbered.evicted {seen : List Text} {w w' : FxtWriter} {s old : Text}
    (numbered : Numbered seen w) (unknown : w.stringTable.lookup s = none)
    (full : w.nextStringId.toNat = 32768) (owner : w.stringTable.lookup old = some 1)
    (table : w'.stringTable = (w.stringTable.erase old).insert s 1)
    (next : w'.nextStringId = w.nextStringId) : Numbered (arrive seen s) w' := by
  have many : 32767 ≤ seen.length := by
    have counted := numbered.next
    omega
  have grown := arrive_grown seen s
  have shared : numberOf (arrive seen s) s = 1 := by
    by_cases arrived : s ∈ seen
    · rw [numberOf_grown grown arrived]
      by_contra apart
      obtain ⟨id, held⟩ := numbered.kept s arrived apart
      exact ne_of_lookup held unknown rfl
    · rw [numberOf_eq, position_new arrived, if_neg (by omega)]
  refine ⟨?_, ?_, ?_⟩
  · have longer := grown.length_le
    rw [next, full]
    omega
  · intro t id held
    rw [table] at held
    rcases (lookup_insert_iff _ _ _ _ _).mp held with ⟨rfl, rfl⟩ | ⟨_, before⟩
    · exact ⟨mem_arrive.mpr (.inr rfl), shared.symm⟩
    · obtain ⟨arrived, same⟩ := numbered.known t id ((lookup_erase_iff _ _ _ _).mp before).2
      exact ⟨grown.subset arrived, same.trans (numberOf_grown grown arrived).symm⟩
  · intro t arrived apart
    rw [table]
    have different : t ≠ s := by
      rintro rfl
      exact apart shared
    rcases mem_arrive.mp arrived with before | rfl
    · rw [numberOf_grown grown before] at apart
      obtain ⟨id, held⟩ := numbered.kept t before apart
      have survives : t ≠ old := by
        rintro rfl
        obtain ⟨_, same⟩ := numbered.known t 1 owner
        exact apart same.symm
      refine ⟨id, (AList.lookup_insert_ne different).trans ?_⟩
      rw [AList.lookup_erase_ne survives]
      exact held
    · exact absurd rfl different

/-- Interning numbers the string. The empty string is not heard, and has no
number. -/
theorem Interned.numbered {seen : List Text} {w w' : FxtWriter} {s : Text} {id : UInt16}
    (interned : Interned w s w' id) (agree : StringsAgree w) (numbered : Numbered seen w) :
    Numbered (hear seen s) w' := by
  cases interned with
  | empty blank =>
    rw [hear, if_pos blank]
    exact numbered
  | hit _ known =>
    have nonblank : s ≠ [] := by
      rintro rfl
      rw [agree.nonempty] at known
      cases known
    rw [hear_nonblank seen nonblank, arrive_known (numbered.known s id known).1]
    exact numbered
  | fresh _ nonblank unknown room table next emitted threads =>
    rw [hear_nonblank seen nonblank]
    exact numbered.fresh agree unknown room table next
  | evicted _ old nonblank unknown full owner table next emitted threads =>
    rw [hear_nonblank seen nonblank]
    exact numbered.evicted unknown full owner table next

/-- Two strings that clash go on clashing, and do not begin to. It depends on
their numbers alone. -/
theorem clash_grown {seen more : List Text} (grown : seen <+: more) {first second : Text}
    (firstHeard : first = [] ∨ first ∈ seen) (secondHeard : second = [] ∨ second ∈ seen) :
    Clash more first second ↔ Clash seen first second := by
  rcases firstHeard with rfl | firstHeard
  · simp [Clash]
  rcases secondHeard with rfl | secondHeard
  · simp [Clash]
  rw [Clash, Clash, numberOf_grown grown firstHeard, numberOf_grown grown secondHeard]

/-- Two strings that have ids at the same time do not clash. One of them would
have evicted the other. -/
theorem Numbered.apart {seen : List Text} {w : FxtWriter} {a b : Text} {idA idB : UInt16}
    (numbered : Numbered seen w) (agree : StringsAgree w)
    (held : w.stringTable.lookup a = some idA) (stands : Stands w b idB) : ¬ Clash seen a b := by
  rintro ⟨_, nonblank, aShared, bShared, different⟩
  rcases stands with ⟨blank, _⟩ | other
  · exact nonblank blank
  · have aNumber := (numbered.known a idA held).2
    have bNumber := (numbered.known b idB other).2
    have same : idA = idB := UInt16.toNat_inj.mp (by omega)
    subst same
    exact different (congrArg effective (agree.distinct a b idA held other))

/-- A string that has lost its id resolves to the one that has it now, so it
resolves to itself unless the two clash. -/
theorem Numbered.displaced {seen : List Text} {w w' : FxtWriter} {a b : Text} {idA idB : UInt16}
    (numbered : Numbered seen w') (agree : StringsAgree w') (interned : Interned w b w' idB)
    (nonblank : a ≠ []) (arrived : a ∈ seen) (known : w.stringTable.lookup a = some idA)
    (lost : w'.stringTable.lookup a = none) :
    w'.reader.resolve idA = some (effective a) ↔ ¬ Clash seen a b := by
  obtain ⟨rfl, otherNonblank, -, -, held, rfl⟩ := interned.displaced known lost
  have shared : numberOf seen a = 1 := by
    by_contra apart
    obtain ⟨id, still⟩ := numbered.kept a arrived apart
    exact ne_of_lookup still lost rfl
  have otherShared := (numbered.known b 1 held).2
  rw [interned.stands.resolves agree]
  constructor
  · rintro same ⟨_, _, _, _, different⟩
    exact different (Option.some.inj same).symm
  · intro clear
    by_contra different
    exact clear ⟨nonblank, otherNonblank, shared, otherShared.symm,
      fun same => different (congrArg some same.symm)⟩

/-- After two strings are interned the reference to the second resolves to it,
and that to the first unless they clash. -/
theorem pair_resolves {seen : List Text} {w w' w'' : FxtWriter} {a b : Text} {idA idB : UInt16}
    (agree : StringsAgree w) (numbered : Numbered seen w) (first : Interned w a w' idA)
    (second : Interned w' b w'' idB) :
    w''.reader.resolve idB = some (effective b) ∧
      (w''.reader.resolve idA = some (effective a) ↔ ¬ Clash (hear (hear seen a) b) a b) := by
  have agree' := first.agree agree
  have agree'' := second.agree agree'
  have numbered' := first.numbered agree numbered
  have numbered'' := second.numbered agree' numbered'
  refine ⟨second.stands.resolves agree'', ?_⟩
  rcases first.stands with ⟨rfl, rfl⟩ | known
  · constructor
    · intro _ clash
      exact clash.1 rfl
    · intro _
      rfl
  obtain ⟨arrived, number⟩ := numbered'.known a idA known
  have grown := hear_grown (hear seen a) b
  rw [← numberOf_grown grown arrived] at number
  cases still : w''.stringTable.lookup a with
  | some id =>
    -- The first string still has its id, which is its number.
    have same := (numbered''.known a id still).2
    have unchanged : idA = id := UInt16.toNat_inj.mp (number.trans same.symm)
    subst unchanged
    exact iff_of_true (Stands.resolves (.inr still) agree'')
      (numbered''.apart agree'' still second.stands)
  | none =>
    exact numbered''.displaced agree'' second (ne_of_lookup known agree'.nonempty)
      (grown.subset arrived) known still

/-- What an operation does that writes records with these strings. It hears
them, keeps the writer coherent, and its records refer to them if none of them
clash. -/
structure Speaks (seen : List Text) (w : FxtWriter) (names : List (List Text))
    (w' : FxtWriter) : Prop where
  coherent : Coherent w'
  grown : ∃ news, Extends w w' news
  numbered : Numbered (names.flatten.foldl hear seen) w'
  count : (seenSince w w').length = names.length
  told : (seenSince w w').map Seen.names = names.map (List.map (fun s => some (effective s))) ↔
    Clear (names.flatten.foldl hear seen) names

/-- Hearing several strings forgets none that has been heard before. -/
theorem foldl_hear_grown (seen strings : List Text) : seen <+: strings.foldl hear seen := by
  induction strings generalizing seen with
  | nil => exact List.prefix_refl seen
  | cons s rest inductionHypothesis =>
    exact (hear_grown seen s).trans (inductionHypothesis (hear seen s))

/-- Each of several strings has been heard behind all of them, unless it is
empty. -/
theorem mem_foldl_hear (seen : List Text) {strings : List Text} {s : Text}
    (member : s ∈ strings) : s = [] ∨ s ∈ strings.foldl hear seen := by
  induction strings generalizing seen with
  | nil => cases member
  | cons first rest inductionHypothesis =>
    rcases List.mem_cons.mp member with rfl | later
    · exact (mem_hear seen s).imp_right
        (fun arrived => (foldl_hear_grown (hear seen s) rest).subset arrived)
    · exact inductionHypothesis (hear seen first) later

/-- No two strings clash in some records and in others if they clash in neither
part. -/
theorem clear_append {seen : List Text} {names more : List (List Text)} :
    Clear seen (names ++ more) ↔ Clear seen names ∧ Clear seen more := by
  constructor
  · intro clear
    exact ⟨fun a b member => clear a b (List.mem_append_left _ member),
      fun a b member => clear a b (List.mem_append_right _ member)⟩
  · rintro ⟨early, late⟩ a b member
    rcases List.mem_append.mp member with old | new
    · exact early a b old
    · exact late a b new

/-- Whether names clash is settled when they have been heard. What is heard
later does not change their numbers. -/
theorem clear_grown {seen later : List Text} {names : List (List Text)} :
    Clear (later.foldl hear (names.flatten.foldl hear seen)) names ↔
      Clear (names.flatten.foldl hear seen) names := by
  have each : ∀ a b, [a, b] ∈ names →
      (Clash (later.foldl hear (names.flatten.foldl hear seen)) a b ↔
        Clash (names.flatten.foldl hear seen) a b) := by
    intro a b member
    have inside : ∀ s ∈ [a, b], s ∈ names.flatten := fun s member' =>
      List.mem_flatten.mpr ⟨_, member, member'⟩
    exact clash_grown (foldl_hear_grown _ _) (mem_foldl_hear seen (inside a (by simp)))
      (mem_foldl_hear seen (inside b (by simp)))
  constructor
  · intro clear a b member clash
    exact clear a b member ((each a b member).mpr clash)
  · intro clear a b member clash
    exact clear a b member ((each a b member).mp clash)

/-- An operation that writes no record with a reference says nothing, and so
nothing wrong. -/
theorem Speaks.silent {seen : List Text} {w w' : FxtWriter} (coherent : Coherent w')
    (grown : ∃ news, Extends w w' news) (numbered : Numbered seen w')
    (nothing : seenSince w w' = []) : Speaks seen w [] w' where
  coherent := coherent
  grown := grown
  numbered := numbered
  count := by rw [nothing]; rfl
  told := by
    rw [nothing]
    constructor
    · intro _ first second member
      cases member
    · intro _
      rfl

/-- Speaking twice is speaking all the names. Records of the first part keep
what they refer to. -/
theorem Speaks.trans {seen : List Text} {first second third : FxtWriter}
    {names more : List (List Text)} (begun : Speaks seen first names second)
    (continued : Speaks (names.flatten.foldl hear seen) second more third) :
    Speaks seen first (names ++ more) third := by
  obtain ⟨news, grown⟩ := begun.grown
  obtain ⟨others, further⟩ := continued.grown
  have heard : (names ++ more).flatten.foldl hear seen =
      more.flatten.foldl hear (names.flatten.foldl hear seen) := by
    rw [List.flatten_append, List.foldl_append]
  refine ⟨continued.coherent, ⟨_, grown.trans further⟩, ?_, ?_, ?_⟩
  · rw [heard]
    exact continued.numbered
  · rw [seenSince_trans grown further, List.length_append, begun.count, continued.count,
      List.length_append]
  · rw [heard, clear_append, clear_grown, ← begun.told, ← continued.told,
      seenSince_trans grown further, List.map_append, List.map_append]
    constructor
    · intro same
      exact List.append_inj same (by rw [List.length_map, List.length_map, begun.count])
    · rintro ⟨early, late⟩
      rw [early, late]

/-! What each public operation speaks of. -/

section Operations

variable {seen : List Text} {w : FxtWriter}

/-- A record that is written without a string being interned for it. -/
theorem Numbered.emit (numbered : Numbered seen w) (record : Record) :
    Numbered seen (w.emit record) := numbered.of_same rfl rfl

/-- A record with references to two strings that have just been interned. The
second one may have evicted the first. -/
theorem pair_speaks {w' w'' : FxtWriter} {a b : Text} {idA idB : UInt16} (coherent : Coherent w)
    (numbered : Numbered seen w) (first : Interned w a w' idA) (second : Interned w' b w'' idB)
    {record : Record} (kept : Coherent (w''.emit record))
    (named : (w''.reader.see record.stored).map Seen.names =
      [[w''.reader.resolve idA, w''.reader.resolve idB]]) :
    Speaks seen w [[a, b]] (w''.emit record) := by
  have coherent' := first.coherent coherent
  obtain ⟨news, grown, _⟩ := first.extends
  obtain ⟨more, further, _⟩ := second.extends
  obtain ⟨secondResolves, firstResolves⟩ := pair_resolves coherent.strings numbered first second
  have shown : seenSince w (w''.emit record) = w''.reader.see record.stored := by
    rw [seenSince_trans (grown.trans further) (emit_extends w'' record),
      seenSince_trans grown further, first.unseen, second.unseen, emit_seen]
    rfl
  have heard : [[a, b]].flatten.foldl hear seen = hear (hear seen a) b := rfl
  refine ⟨kept, ⟨_, (grown.trans further).trans (emit_extends w'' record)⟩, ?_, ?_, ?_⟩
  · rw [heard]
    exact (second.numbered coherent'.strings (first.numbered coherent.strings numbered)).emit record
  · have counted := congrArg List.length named
    rw [List.length_map] at counted
    rw [shown, counted]
    rfl
  · rw [heard, shown, named, secondResolves]
    constructor
    · intro same c d member clash
      obtain ⟨rfl, rfl⟩ : c = a ∧ d = b := by simpa using member
      have resolved : w''.reader.resolve idA = some (effective c) := by simpa using same
      exact firstResolves.mp resolved clash
    · intro clear
      rw [firstResolves.mpr (clear a b List.mem_cons_self)]
      rfl

/-- Naming a process says the name it is given. A single name cannot clash. -/
theorem writeProcessName_speaks (coherent : Coherent w) (numbered : Numbered seen w)
    (pid : UInt64) (name : Text) : Speaks seen w [[name]] (w.writeProcessName pid name) := by
  have interned := internString_interned coherent.strings name
  obtain ⟨news, grown, _⟩ := interned.extends
  have kept := interned.coherent coherent
  have emitted := emit_extends (w.internString name).1 (.processObject (w.internString name).2 pid)
  have shown : seenSince w (w.writeProcessName pid name) =
      [.processObject (some (effective name)) pid] := by
    rw [writeProcessName, seenSince_trans grown emitted, interned.unseen, emit_seen,
      ← interned.stands.resolves kept.strings]
    rfl
  refine ⟨(writeProcessName_quiet coherent pid name).1.coherent, ⟨_, grown.trans emitted⟩,
    (interned.numbered coherent.strings numbered).emit _, ?_, ?_⟩
  · rw [shown]
    rfl
  · rw [shown]
    constructor
    · intro _ a b member
      simp at member
    · intro _
      rfl

/-- Naming a thread says its name and the label of its argument. If the second
takes the id of the first, then the record says the same name twice. -/
theorem writeThreadName_speaks (coherent : Coherent w) (numbered : Numbered seen w)
    (pid tid : UInt64) (name : Text) :
    Speaks seen w [[name, text "process"]] (w.writeThreadName pid tid name) := by
  have interned := internString_interned coherent.strings name
  have kept := interned.coherent coherent
  have interned' := internString_interned kept.strings (text "process")
  exact pair_speaks coherent numbered interned interned'
    (writeThreadName_quiet coherent pid tid name).1.coherent rfl

/-- Making sure of a thread speaks of its process, if that is new, and of the
thread. -/
theorem ensureThread_speaks (coherent : Coherent w) (numbered : Numbered seen w)
    (pid tid : UInt64) : Speaks seen w (w.threadNames pid tid) (w.ensureThread pid tid).1 := by
  cases known : w.threadTable.lookup ⟨pid, tid⟩ with
  | some slot =>
    rw [ensureThread_known known, threadNames, known]
    exact Speaks.silent coherent ⟨[], Extends.refl w⟩ numbered (seenSince_self w)
  | none =>
    have claimed := claimSlot_quiet coherent pid tid
    have claimedSpeaks : Speaks seen w [] (w.claimSlot pid tid) := by
      refine Speaks.silent claimed.coherent claimed.grown (numbered.of_same rfl rfl) ?_
      rw [(claimSlot_extends w pid tid).seenSince]
      rfl
    have namedSpeaks : Speaks seen (w.claimSlot pid tid)
        (if pid ∈ w.namedProcesses then [] else [[processLabel pid]])
        ((w.claimSlot pid tid).nameProcess pid) := by
      have same : (w.claimSlot pid tid).namedProcesses = w.namedProcesses := rfl
      rw [nameProcess, same]
      split
      · exact Speaks.silent claimed.coherent ⟨[], Extends.refl _⟩ claimedSpeaks.numbered
          (seenSince_self _)
      · have marked : Coherent { w.claimSlot pid tid with
            namedProcesses := insert pid (w.claimSlot pid tid).namedProcesses } :=
          ⟨claimed.coherent.strings.of_same rfl rfl rfl, claimed.coherent.threads.of_same rfl rfl,
            claimed.coherent.wellFormed⟩
        have speaks : Speaks seen _ [[processLabel pid]] _ := writeProcessName_speaks marked
          (claimedSpeaks.numbered.of_same rfl rfl) pid (processLabel pid)
        exact ⟨speaks.coherent, speaks.grown, speaks.numbered, speaks.count, speaks.told⟩
    have titledSpeaks := writeThreadName_speaks namedSpeaks.coherent namedSpeaks.numbered pid tid
      (threadLabel tid)
    rw [ensureThread_new known, threadNames, known]
    exact (claimedSpeaks.trans namedSpeaks).trans titledSpeaks

/-- Writing an event says its category and its name, and first what it says of
its thread, if that is new. -/
theorem emitEvent_speaks (coherent : Coherent w) (numbered : Numbered seen w) (eventType : UInt8)
    (wellTyped : eventType.toNat < 2 ^ 4) (pid tid : UInt64) (category name : Text)
    (timestamp : UInt64) :
    Speaks seen w (w.threadNames pid tid ++ [[category, name]])
      (w.emitEvent eventType pid tid category name timestamp) := by
  have ensured := ensureThread_speaks coherent numbered pid tid
  have categorized := internString_interned ensured.coherent.strings category
  have named := internString_interned (categorized.coherent ensured.coherent).strings name
  have kept := (emitEvent_events coherent eventType wellTyped pid tid category name timestamp).1
  exact ensured.trans (pair_speaks ensured.coherent ensured.numbered categorized named kept rfl)

/-- Every call numbers the strings it interns, and its references resolve unless
they clash. -/
theorem perform_speaks (coherent : Coherent w) (numbered : Numbered seen w) (call : WriterCall) :
    Numbered ((w.callStrings call).foldl hear seen) (w.perform call) ∧
      (call.named = true →
        (Resolved w call ↔ Clear ((w.callStrings call).foldl hear seen) (w.callNames call))) := by
  have spoken : ∀ {names w'}, Speaks seen w names w' →
      Numbered (names.flatten.foldl hear seen) w' ∧ (call.named = true →
        ((seenSince w w').map Seen.names = names.map (List.map (fun s => some (effective s))) ↔
          Clear (names.flatten.foldl hear seen) names)) :=
    fun speaks => ⟨speaks.numbered, fun _ => speaks.told⟩
  cases call with
  | preamble providerName providerId ticksPerSecond baseTicks baseTimeNs =>
    have grown : Extends w
        (w.writePreamble providerName providerId ticksPerSecond baseTicks baseTimeNs)
        [.magicNumber, .providerInfo providerId providerName, .providerSection providerId,
          .init ticksPerSecond baseTicks baseTimeNs] := by
      simp [Extends, writePreamble, emit]
    exact spoken (Speaks.silent
      (writePreamble_quiet coherent providerName providerId ticksPerSecond baseTicks
        baseTimeNs).coherent ⟨_, grown⟩ (numbered.of_same rfl rfl) grown.seenSince)
  | internString s =>
    have interned := internString_interned coherent.strings s
    refine ⟨interned.numbered coherent.strings numbered, fun _ => ?_⟩
    rw [Resolved, perform, interned.unseen]
    constructor
    · intro _ a b member
      cases member
    · intro _
      rfl
  | ensureThread pid tid => exact spoken (ensureThread_speaks coherent numbered pid tid)
  | durationBegin pid tid category name timestamp =>
    exact spoken (emitEvent_speaks coherent numbered eventDurationBegin (by decide) pid tid
      category name timestamp)
  | durationEnd pid tid category name timestamp =>
    exact spoken (emitEvent_speaks coherent numbered eventDurationEnd (by decide) pid tid
      category name timestamp)
  | eventById eventType threadRef categoryId nameId timestamp =>
    refine ⟨numbered.of_same rfl rfl, ?_⟩
    intro named
    cases named
  | processName pid name => exact spoken (writeProcessName_speaks coherent numbered pid name)
  | threadName pid tid name =>
    exact spoken (writeThreadName_speaks coherent numbered pid tid name)

end Operations

/-- What has been heard behind one more call is what its strings add to what was
heard before it. -/
theorem heard_concat (past : List WriterCall) (call : WriterCall) :
    heard (past ++ [call]) = ((afterCalls past).callStrings call).foldl hear (heard past) := by
  have continued : ∀ (w : FxtWriter) (seen : List Text),
      w.heardFrom seen (past ++ [call]) =
        ((past.foldl perform w).callStrings call).foldl hear (w.heardFrom seen past) := by
    induction past with
    | nil =>
      intro w seen
      rfl
    | cons first rest inductionHypothesis =>
      intro w seen
      exact inductionHypothesis (w.perform first) _
  exact continued {} []

/-- Behind one more call the writer is in the state that this call makes of the
one before. -/
theorem afterCalls_concat (past : List WriterCall) (call : WriterCall) :
    afterCalls (past ++ [call]) = (afterCalls past).perform call := by
  rw [afterCalls, List.foldl_append]
  rfl

/-- After any calls the string table numbers what they interned. The numbers
depend only on the strings and their order. -/
theorem afterCalls_numbered (calls : List WriterCall) : Numbered (heard calls) (afterCalls calls) := by
  induction calls using List.reverseRecOn with
  | nil => exact numbered_fresh
  | append_singleton past call inductionHypothesis =>
    rw [heard_concat, afterCalls_concat]
    exact (perform_speaks (afterCalls_coherent past) inductionHypothesis call).1

/-- The references of one more call resolve exactly if none of its records
clash. -/
theorem resolved_iff (past : List WriterCall) {call : WriterCall} (named : call.named = true) :
    Resolved (afterCalls past) call ↔
      Clear (heard (past ++ [call])) ((afterCalls past).callNames call) := by
  rw [heard_concat]
  exact (perform_speaks (afterCalls_coherent past) (afterCalls_numbered past) call).2 named

/-- In a sequence of calls every reference written from a string resolves to it
if and only if no record refers to two differently stored strings that are both
numbered 1, that is, come first or after the number of ids among the strings
interned. -/
theorem references_resolve (calls : List WriterCall) :
    (∀ past call future, calls = past ++ call :: future → call.named = true →
        Resolved (afterCalls past) call) ↔
      ∀ past call future, calls = past ++ call :: future → call.named = true →
        Clear (heard (past ++ [call])) ((afterCalls past).callNames call) := by
  constructor
  · intro resolved past call future split named
    exact (resolved_iff past named).mp (resolved past call future split named)
  · intro clear past call future split named
    exact (resolved_iff past named).mpr (clear past call future split named)

/-- The number written with two bytes. Numbers below 65536 have different texts. -/
def twoBytes (n : Nat) : Text := [(n / 256).toUInt8, (n % 256).toUInt8]

/-- Calls that use up all ids. The next new string has to evict one. -/
def useIds : List WriterCall := (List.range 32767).map (fun n => .internString (twoBytes n))

/-- Interning different strings in a row hears them in this order. Each one has
the number of its place. -/
theorem heard_interns {strings : List Text} (distinct : strings.Nodup) (nonblank : [] ∉ strings) :
    heard (strings.map .internString) = strings := by
  induction strings using List.reverseRecOn with
  | nil => rfl
  | append_singleton past s inductionHypothesis =>
    have new : s ∉ past := by
      intro known
      exact (List.nodup_append.mp distinct).2.2 s known s List.mem_cons_self rfl
    have nonempty : s ≠ [] := by
      rintro rfl
      exact nonblank (List.mem_append_right past List.mem_cons_self)
    rw [List.map_append, List.map_singleton, heard_concat,
      inductionHypothesis (List.nodup_append.mp distinct).1
        (fun blank => nonblank (List.mem_append_left _ blank))]
    exact (hear_nonblank past nonempty).trans (arrive_new new)

/-- The calls that use up the ids hear as many strings as there are ids. -/
theorem heard_useIds : heard useIds = (List.range 32767).map twoBytes := by
  have strings : useIds = ((List.range 32767).map twoBytes).map .internString := by
    rw [useIds, List.map_map]
    rfl
  rw [strings]
  apply heard_interns
  · refine List.nodup_range.map_on ?_
    intro n small m less same
    have n_small := List.mem_range.mp small
    have m_small := List.mem_range.mp less
    simp only [twoBytes, List.cons.injEq, and_true] at same
    obtain ⟨high, low⟩ := same
    have high := congrArg UInt8.toNat high
    have low := congrArg UInt8.toNat low
    simp at high low
    omega
  · intro blank
    obtain ⟨n, _, same⟩ := List.mem_map.mp blank
    cases same

/-- A string that arrives when all ids are used is numbered 1. This is so for
every later one. -/
theorem numberOf_late {seen : List Text} {s : Text} (many : 32767 ≤ seen.length) (new : s ∉ seen) :
    numberOf (arrive seen s) s = 1 := by
  rw [numberOf_eq, position_new new, if_neg (by omega)]

/-- Strings of another length than two are not among those that use up the ids. -/
theorem not_mem_useIds {s : Text} (longer : s.length ≠ 2) :
    s ∉ (List.range 32767).map twoBytes := by
  intro member
  obtain ⟨n, _, same⟩ := List.mem_map.mp member
  apply longer
  rw [← same]
  rfl

/-- Naming a thread is heard as its name and the name of its argument. The
second one is known already if a thread was named before. -/
theorem heard_threadName {w : FxtWriter} (seen : List Text) {pid tid : UInt64} {name : Text}
    (nonblank : name ≠ []) :
    (w.callStrings (.threadName pid tid name)).foldl hear seen =
      arrive (arrive seen name) (text "process") := by
  have strings : w.callStrings (.threadName pid tid name) = [name, text "process"] := rfl
  rw [strings, List.foldl_cons, List.foldl_cons, List.foldl_nil, hear_nonblank _ nonblank,
    hear_nonblank _ (by decide)]

/-- Once all ids are used, a thread that is given a new name shows another one:
the id of the name is taken over by the name of its argument. -/
theorem references_resolve_not_full :
    ¬ ∀ past call future,
      useIds ++ [.threadName 1 2 (text "new")] = past ++ call :: future →
        call.named = true → Resolved (afterCalls past) call := by
  intro all
  have clear := all useIds (.threadName 1 2 (text "new")) [] rfl rfl
  rw [resolved_iff useIds rfl, heard_concat, heard_useIds] at clear
  apply clear (text "new") (text "process") List.mem_cons_self
  generalize strings : (List.range 32767).map twoBytes = seen
  have many : seen.length = 32767 := by rw [← strings, List.length_map, List.length_range]
  have nameNew : text "new" ∉ seen := strings ▸ not_mem_useIds (by decide)
  have argNew : text "process" ∉ arrive seen (text "new") := by
    intro arrived
    rcases mem_arrive.mp arrived with old | same
    · exact absurd old (strings ▸ not_mem_useIds (by decide))
    · exact absurd same (by decide)
  have grown := arrive_grown (arrive seen (text "new")) (text "process")
  have longer := (arrive_grown seen (text "new")).length_le
  rw [heard_threadName seen (by decide)]
  refine ⟨by decide, by decide, ?_, numberOf_late (by omega) argNew, by decide⟩
  rw [numberOf_grown grown (mem_arrive.mpr (.inr rfl))]
  exact numberOf_late (by omega) nameNew

end FxtWriter

end Tracey
