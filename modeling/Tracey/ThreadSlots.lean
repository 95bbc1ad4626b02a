import Tracey.WriterJournal

/-!
# How thread slots are recycled

The slots are meant to be recycled as a circular buffer of 255 entries: a new
thread takes the slot that was assigned longest ago. The counter behind them has
eight bits and wraps at 256, which is no multiple of 255. Up to the wrap the
slots go round once and the law of the buffer holds; the thread entered next
takes the slot of the thread entered just before it.
-/

namespace Tracey.FxtWriter

open FiniteMap Journal

/-- The threads in the table by seniority, after one more has been entered. The
threads that have lost their slots are out of the order. -/
def seat (order : List ThreadId) (entry : FxtWriter × ThreadId) : List ThreadId :=
  join order (fun thread => ((entry.1.enter entry.2).threadTable.lookup thread).isSome) entry.2

/-- The threads in the table, the one whose slot was assigned longest ago first. -/
def seniority (journal : List (FxtWriter × ThreadId)) : List ThreadId := journal.foldl seat []

/-- Behind one more entry, the seniority is that of the entries before it, with
the entry seated. -/
theorem seniority_concat (journal : List (FxtWriter × ThreadId))
    (entry : FxtWriter × ThreadId) :
    seniority (journal ++ [entry]) = seat (seniority journal) entry := by
  rw [seniority, List.foldl_append]
  rfl

/-- The slots of a run are recycled as a circular buffer: any 255 consecutive
ones differ, a thread that loses its slot is the most senior one, and a thread
keeps its slot until 255 further threads have been entered. -/
structure Circular (calls : List WriterCall) : Prop where
  apart : ∀ window, window <:+: (afterCalls calls).announcedSlots → window.length = 255 →
    window.Nodup
  loser : ∀ before w thread after, threadJournal calls = before ++ (w, thread) :: after →
    ∀ other, (w.threadTable.lookup other).isSome →
      (w.enter thread).threadTable.lookup other = none → (seniority before).head? = some other
  kept : ∀ before w thread after, threadJournal calls = before ++ (w, thread) :: after →
    (∀ between w' next later, after = between ++ (w', next) :: later → between.length < 255 →
      w'.threadTable.lookup thread = some (w.ensureThread thread.pid thread.tid).2) ∧
    (after.length < 255 → (afterCalls calls).threadTable.lookup thread =
      some (w.ensureThread thread.pid thread.tid).2)

/-- The slot assigned by the eight-bit counter to the thread entered after so
many. -/
def slotAt (count : Nat) : UInt8 := UInt8.ofNat count % maxThreadSlots + 1

/-- The slot counts up to 255 and starts over, on top of a counter that wraps at
256. Both are needed: 255 is not a divisor of 256. -/
theorem slotAt_toNat (count : Nat) : (slotAt count).toNat = count % 256 % 255 + 1 := by
  have counted : (UInt8.ofNat count).toNat = count % 256 := UInt8.toNat_ofNat'
  have modulus : (UInt8.ofNat count % maxThreadSlots).toNat = count % 256 % 255 := by
    rw [UInt8.toNat_mod, counted]
    rfl
  rw [slotAt, UInt8.toNat_add, modulus]
  change (count % 256 % 255 + 1) % 256 = _
  omega

/-- Until the counter wraps, slots assigned within one round differ. The thread
behind 256 others would get the slot of the one before it. -/
theorem slotAt_inj {first second : Nat} (unwrapped : second < 256) (order : first ≤ second)
    (round : second < first + 255) (same : slotAt first = slotAt second) : first = second := by
  have numbers := congrArg UInt8.toNat same
  rw [slotAt_toNat, slotAt_toNat, Nat.mod_eq_of_lt unwrapped,
    Nat.mod_eq_of_lt (Nat.lt_of_le_of_lt order unwrapped)] at numbers
  omega

/-- A thread owns its slot after the previous owner of another slot has been
dropped. -/
theorem dropSlot_lookup {table : Table ThreadId UInt8} (one : OneOwner table) (slot : UInt8)
    (thread : ThreadId) (held : UInt8) : (dropSlot table slot).lookup thread = some held ↔
      table.lookup thread = some held ∧ held ≠ slot := by
  constructor
  · intro owned
    refine ⟨dropSlot_owner owned, ?_⟩
    rintro rfl
    exact dropSlot_unowned one held thread owned
  · rintro ⟨owned, other⟩
    unfold dropSlot
    split
    · next entry found =>
      have holds : entry.2 = slot := by simpa using List.find?_some found
      refine (lookup_erase_iff _ _ _ _).mpr ⟨?_, owned⟩
      rintro rfl
      have entered := AList.mem_lookup_iff.mpr (List.mem_of_find?_eq_some found)
      rw [owned] at entered
      exact other ((Option.some.inj entered).trans holds)
    · exact owned

/-- What entering a new thread does to the table, the counter and the announced
slots. -/
theorem enter_effect {w : FxtWriter} {thread : ThreadId}
    (new : w.threadTable.lookup thread = none) :
    (w.enter thread).threadTable = (dropSlot w.threadTable w.nextSlot).insert thread w.nextSlot ∧
      (w.enter thread).nextThreadSlot = w.nextThreadSlot + 1 ∧
      (w.enter thread).announcedSlots = w.announcedSlots ++ [w.nextSlot] ∧
      (w.ensureThread thread.pid thread.tid).2 = w.nextSlot := by
  have same := w.enter_sameSlots new
  refine ⟨same.table, same.next, ?_, ?_⟩
  · rw [same.announced, announcedSlots, claimSlot_extends w thread.pid thread.tid,
      List.filterMap_append]
    rfl
  · exact congrArg Prod.snd (ensureThread_new new)

/-- A run of the thread table: the counter counts the threads entered, each is
announced with its slot, and only threads that have been entered own one. -/
structure Counted (past : List (FxtWriter × ThreadId)) (w : FxtWriter) : Prop where
  next : w.nextThreadSlot = UInt8.ofNat past.length
  announced : w.announcedSlots = (List.range past.length).map slotAt
  entered : ∀ thread slot, w.threadTable.lookup thread = some slot → thread ∈ past.map Prod.snd

/-- The next slot is determined by how many threads have entered. The counter
itself has wrapped if there were more than 255. -/
theorem Counted.slot {past : List (FxtWriter × ThreadId)} {w : FxtWriter}
    (counted : Counted past w) : w.nextSlot = slotAt past.length := by
  rw [nextSlot, counted.next, slotAt]

/-- The count stays right over whatever touches no slot. -/
theorem Counted.of_same {past : List (FxtWriter × ThreadId)} {w w' : FxtWriter}
    (counted : Counted past w) (same : SameSlots w w') : Counted past w' where
  next := same.next.trans counted.next
  announced := same.announced.trans counted.announced
  entered := by
    rw [same.table]
    exact counted.entered

/-- A new thread counts one more. The slot it gets is the one that was next. -/
theorem Counted.enter {past : List (FxtWriter × ThreadId)} {w : FxtWriter} {thread : ThreadId}
    (counted : Counted past w) (new : w.threadTable.lookup thread = none) :
    Counted (past ++ [(w, thread)]) (w.enter thread) := by
  obtain ⟨table, next, announced, -⟩ := enter_effect new
  refine ⟨?_, ?_, ?_⟩
  · rw [next, counted.next, List.length_append]
    exact UInt8.toNat_inj.mp (by simp)
  · rw [announced, counted.announced, counted.slot, List.length_append, List.length_singleton,
      List.range_succ, List.map_append, List.map_singleton]
  · intro other slot owned
    rw [table] at owned
    rw [List.map_append, List.mem_append]
    rcases (lookup_insert_iff _ _ _ _ _).mp owned with ⟨rfl, -⟩ | ⟨-, before⟩
    · exact .inr (List.mem_singleton.mpr rfl)
    · exact .inl (counted.entered other slot (dropSlot_owner before))

/-- Before the counter wraps, the last 255 threads entered own their slots, in
the order of their seniority. -/
structure Rotating (past : List (FxtWriter × ThreadId)) (w : FxtWriter) : Prop where
  owners : ∀ thread slot, w.threadTable.lookup thread = some slot ↔
    ∃ index, past.length ≤ index + 255 ∧ (past.map Prod.snd)[index]? = some thread ∧
      slot = slotAt index
  order : seniority past = (past.map Prod.snd).drop (past.length - 255)

section Rotating

variable {past : List (FxtWriter × ThreadId)} {w : FxtWriter} {thread : ThreadId}

/-- The rotation is kept over whatever touches no slot. It speaks of the thread
table alone. -/
theorem Rotating.of_same {w' : FxtWriter} (rotating : Rotating past w) (same : SameSlots w w') :
    Rotating past w' where
  owners := by
    rw [same.table]
    exact rotating.owners
  order := rotating.order

/-- No slot has two owners. Two owners would have been entered within one round. -/
theorem Rotating.distinct (rotating : Rotating past w) (unwrapped : past.length ≤ 256) :
    OneOwner w.threadTable := by
  intro first second slot firstOwns secondOwns
  obtain ⟨i, iRound, iNamed, iSlot⟩ := (rotating.owners first slot).mp firstOwns
  obtain ⟨j, jRound, jNamed, jSlot⟩ := (rotating.owners second slot).mp secondOwns
  have iBound : i < past.length := by simpa using (List.getElem?_eq_some_iff.mp iNamed).1
  have jBound : j < past.length := by simpa using (List.getElem?_eq_some_iff.mp jNamed).1
  have same : i = j := by
    rcases Nat.le_total i j with order | order
    · exact slotAt_inj (by omega) order (by omega) (iSlot.symm.trans jSlot)
    · exact (slotAt_inj (by omega) order (by omega) (jSlot.symm.trans iSlot)).symm
  subst same
  exact Option.some.inj (iNamed.symm.trans jNamed)

/-- Who owns a slot after a new thread has been entered. It is the new thread
for one slot, and for any other slot the owner there was. -/
theorem Rotating.owners_enter (counted : Counted past w) (rotating : Rotating past w)
    (unwrapped : past.length < 256) (new : w.threadTable.lookup thread = none) (other : ThreadId)
    (slot : UInt8) : (w.enter thread).threadTable.lookup other = some slot ↔
      (other = thread ∧ slot = slotAt past.length) ∨
        (w.threadTable.lookup other = some slot ∧ slot ≠ slotAt past.length) := by
  obtain ⟨table, -, -, -⟩ := enter_effect new
  rw [table, lookup_insert_iff, dropSlot_lookup (rotating.distinct (by omega)), counted.slot]
  constructor
  · rintro (mine | ⟨-, owned⟩)
    · exact .inl mine
    · exact .inr owned
  · rintro (mine | owned)
    · exact .inl mine
    · exact .inr ⟨ne_of_lookup owned.1 new, owned⟩

/-- Among the last 255 threads entered, only the first of a full round has the
next slot. -/
theorem slotAt_free {index count : Nat} (unwrapped : count < 256) (entered : index < count)
    (round : count ≤ index + 255) : slotAt index ≠ slotAt count ↔ count + 1 ≤ index + 255 := by
  constructor
  · intro differ
    by_contra oldest
    apply differ
    have wrapped : index = 0 ∧ count = 255 := by omega
    rw [wrapped.1, wrapped.2]
    rfl
  · intro younger same
    have equal := slotAt_inj unwrapped (Nat.le_of_lt entered) (by omega) same
    omega

/-- The slots of the last 255 threads, the new one included, are owned by them.
The owner of a whole round ago is the only one to leave. -/
theorem Rotating.owners_grown (counted : Counted past w) (rotating : Rotating past w)
    (unwrapped : past.length < 256) (new : w.threadTable.lookup thread = none)
    (other : ThreadId) (slot : UInt8) :
    (w.enter thread).threadTable.lookup other = some slot ↔
      ∃ index, (past ++ [(w, thread)]).length ≤ index + 255 ∧
        ((past ++ [(w, thread)]).map Prod.snd)[index]? = some other ∧ slot = slotAt index := by
  have stays := rotating.owners_enter counted unwrapped new
  rw [stays, rotating.owners, List.length_append, List.length_singleton, List.map_append]
  constructor
  · rintro (⟨rfl, rfl⟩ | ⟨⟨index, round, named, rfl⟩, free⟩)
    · exact ⟨past.length, by omega, by simp, rfl⟩
    · have entered : index < past.length := by
        simpa using (List.getElem?_eq_some_iff.mp named).1
      refine ⟨index, (slotAt_free unwrapped entered round).mp free, ?_, rfl⟩
      rw [List.getElem?_append_left (by simpa using entered)]
      exact named
  · rintro ⟨index, round, named, rfl⟩
    by_cases entered : index < past.length
    · rw [List.getElem?_append_left (by simpa using entered)] at named
      exact .inr ⟨⟨index, by omega, named, rfl⟩,
        (slotAt_free unwrapped entered (by omega)).mpr round⟩
    · rw [List.getElem?_append_right (by simpa using entered)] at named
      simp only [List.map_cons, List.map_nil, List.length_map] at named
      have last : index = past.length := by
        have bound := (List.getElem?_eq_some_iff.mp named).1
        simp only [List.length_singleton] at bound
        omega
      subst last
      simp only [Nat.sub_self, List.getElem?_cons_zero, Option.some.injEq] at named
      exact .inl ⟨named.symm, rfl⟩

/-- A thread entered within the last round still owns its slot. Its slot is
another one than the newcomer's. -/
theorem Rotating.stays (counted : Counted past w) (rotating : Rotating past w)
    (unwrapped : past.length < 256) (new : w.threadTable.lookup thread = none)
    {index : Nat} {other : ThreadId} (named : (past.map Prod.snd)[index]? = some other)
    (younger : past.length + 1 ≤ index + 255) :
    ((w.enter thread).threadTable.lookup other).isSome = true := by
  have entered : index < past.length := by
    simpa using (List.getElem?_eq_some_iff.mp named).1
  have owned := (rotating.owners other (slotAt index)).mpr ⟨index, by omega, named, rfl⟩
  rw [(rotating.owners_enter counted unwrapped new other (slotAt index)).mpr
    (.inr ⟨owned, (slotAt_free unwrapped entered (by omega)).mpr younger⟩)]
  rfl

/-- The thread entered a whole round ago loses its slot. The newcomer gets that
slot. -/
theorem Rotating.leaves (counted : Counted past w) (rotating : Rotating past w)
    (round : past.length = 255) (new : w.threadTable.lookup thread = none) {first : ThreadId}
    (named : (past.map Prod.snd)[0]? = some first) :
    ((w.enter thread).threadTable.lookup first).isSome = false := by
  have stays := rotating.owners_enter counted (by omega) new
  have owned := (rotating.owners first (slotAt 0)).mpr ⟨0, by omega, named, rfl⟩
  rw [Option.isSome_eq_false_iff, Option.isNone_iff_eq_none]
  cases after : (w.enter thread).threadTable.lookup first with
  | none => rfl
  | some slot =>
    exfalso
    rcases (stays first slot).mp after with ⟨rfl, -⟩ | ⟨before, free⟩
    · exact ne_of_lookup owned new rfl
    · rw [owned] at before
      rw [← Option.some.inj before, round] at free
      exact free rfl

/-- The order of seniority loses its oldest thread once the slots are all taken.
Before that nobody leaves. -/
theorem Rotating.order_grown (counted : Counted past w) (rotating : Rotating past w)
    (unwrapped : past.length < 256) (new : w.threadTable.lookup thread = none) :
    seniority (past ++ [(w, thread)]) = ((past ++ [(w, thread)]).map Prod.snd).drop
      ((past ++ [(w, thread)]).length - 255) := by
  rw [seniority_concat, rotating.order, List.length_append, List.length_singleton,
    List.map_append, List.map_singleton]
  by_cases round : past.length = 255
  · cases names : past.map Prod.snd with
    | nil =>
      have shorter := congrArg List.length names
      simp [round] at shorter
    | cons first others =>
      have leaves := rotating.leaves counted round new (by rw [names]; rfl)
      have count : others.length = 254 := by
        have counted := congrArg List.length names
        simp only [List.length_map, List.length_cons] at counted
        omega
      have rest : ∀ key ∈ others, ((w.enter thread).threadTable.lookup key).isSome = true := by
        intro key member
        obtain ⟨index, bound, found⟩ := List.mem_iff_getElem.mp member
        have named : (past.map Prod.snd)[index + 1]? = some key := by
          rw [names, List.getElem?_cons_succ, List.getElem?_eq_getElem bound, found]
        exact rotating.stays counted unwrapped new named (by omega)
      have joined : join (first :: others)
          (fun key => ((w.enter thread).threadTable.lookup key).isSome) thread =
            others ++ [thread] := join_senior leaves rest
      rw [round, seat]
      simpa using joined
  · have early : past.length - 255 = 0 ∧ past.length + 1 - 255 = 0 := by omega
    rw [early.1, early.2, List.drop_zero, List.drop_zero, seat]
    apply join_all
    intro key member
    obtain ⟨index, bound, found⟩ := List.mem_iff_getElem.mp member
    exact rotating.stays counted unwrapped new
      (by rw [List.getElem?_eq_getElem bound, found]) (by omega)

/-- A new thread keeps the rotation as long as the counter has not wrapped: it
takes the slot of the thread that has had its own for longest. -/
theorem Rotating.enter (counted : Counted past w) (rotating : Rotating past w)
    (unwrapped : past.length < 256) (new : w.threadTable.lookup thread = none) :
    Rotating (past ++ [(w, thread)]) (w.enter thread) :=
  ⟨rotating.owners_grown counted unwrapped new, rotating.order_grown counted unwrapped new⟩

end Rotating

/-- What holds at every entry of the journal of a run: the entries are counted,
and as long as the counter has not wrapped the table rotates. -/
structure Recycled (past : List (FxtWriter × ThreadId)) (w : FxtWriter) : Prop where
  counted : Counted past w
  rotating : past.length ≤ 256 → Rotating past w

/-- The thread table of every run is recycled by the eight-bit counter. It holds
in the end, and at each entry of what came before it. -/
theorem threadJournal_recycled (calls : List WriterCall) :
    Recycled (threadJournal calls) (afterCalls calls) ∧
      ∀ before w thread after, threadJournal calls = before ++ (w, thread) :: after →
        Recycled before w := by
  refine (threadJournal_leads calls).law (fun w thread => w.threadTable.lookup thread = none)
    Recycled ?_ ?_ (threadJournal_new calls) ?_
  · intro past w w' same recycled
    exact ⟨recycled.counted.of_same same, fun few => (recycled.rotating few).of_same same⟩
  · intro past w thread new recycled
    refine ⟨recycled.counted.enter new, fun few => ?_⟩
    rw [List.length_append, List.length_singleton] at few
    exact (recycled.rotating (by omega)).enter recycled.counted (by omega) new
  · refine ⟨⟨rfl, rfl, ?_⟩, fun _ => ⟨?_, rfl⟩⟩
    · intro thread slot owned
      cases owned
    · intro thread slot
      constructor
      · intro owned
        cases owned
      · rintro ⟨index, -, named, -⟩
        cases named

/-- The slots announced in a run are those of the counter. They depend only on
how many threads have been entered, not on which. -/
theorem announcedSlots_eq (calls : List WriterCall) :
    (afterCalls calls).announcedSlots = (List.range (threadJournal calls).length).map slotAt :=
  (threadJournal_recycled calls).1.counted.announced

/-- While the counter has not wrapped, no slot comes twice within a round. This
is what a circular buffer of 255 entries promises. -/
theorem slots_apart {count : Nat} (unwrapped : count ≤ 256) {window : List UInt8}
    (consecutive : window <:+: (List.range count).map slotAt) (round : window.length = 255) :
    window.Nodup := by
  obtain ⟨before, after, split⟩ := consecutive
  obtain ⟨upTo, rest, cut, upToSlots, -⟩ := List.map_eq_append_iff.mp split.symm
  obtain ⟨first, counts, cut', -, rfl⟩ := List.map_eq_append_iff.mp upToSlots
  rw [cut', List.range_eq_range'] at cut
  obtain ⟨size, inside, consecutive, -⟩ := List.range'_eq_append_iff.mp cut
  obtain ⟨start, bound, -, window⟩ := List.range'_eq_append_iff.mp consecutive.symm
  rw [List.length_map, window, List.length_range'] at round
  rw [window]
  refine List.Nodup.map_on ?_ List.nodup_range'
  intro i iMember j jMember same
  rw [Nat.mul_one, List.mem_range'_1] at iMember jMember
  rcases Nat.le_total i j with order | order
  · exact slotAt_inj (by omega) order (by omega) same
  · exact (slotAt_inj (by omega) order (by omega) same.symm).symm

/-- Behind the wrap two threads in a row get the same slot. The 256th takes slot
1, as the counter is 255 then, and the 257th takes it again, as the counter is
0. -/
theorem slots_repeat {count : Nat} (wrapped : 256 < count) :
    ∃ window, window <:+: (List.range count).map slotAt ∧ window.length = 255 ∧ ¬ window.Nodup := by
  refine ⟨(List.range' 2 255).map slotAt, ?_, by rw [List.length_map, List.length_range'], ?_⟩
  · have behind := @List.range'_append_1 2 255 (count - 257)
    have whole := @List.range'_append_1 0 2 (255 + (count - 257))
    have size : 2 + (255 + (count - 257)) = count := by omega
    rw [Nat.zero_add, ← behind, size, ← List.append_assoc] at whole
    rw [List.range_eq_range', ← whole, List.map_append, List.map_append]
    exact List.infix_append _ _ _
  · intro distinct
    have same : slotAt 255 = slotAt 256 := by decide
    have equal := List.inj_on_of_nodup_map distinct (List.mem_range'_1.mpr ⟨by omega, by omega⟩)
      (List.mem_range'_1.mpr ⟨by omega, by omega⟩) same
    omega

/-- A thread that loses its slot before the counter wraps is the most senior
one. -/
theorem Rotating.senior {past : List (FxtWriter × ThreadId)} {w : FxtWriter}
    {thread other : ThreadId} (counted : Counted past w) (rotating : Rotating past w)
    (unwrapped : past.length < 256) (new : w.threadTable.lookup thread = none)
    (owned : (w.threadTable.lookup other).isSome)
    (lost : (w.enter thread).threadTable.lookup other = none) :
    (seniority past).head? = some other := by
  obtain ⟨slot, owned⟩ := Option.isSome_iff_exists.mp owned
  obtain ⟨index, round, named, rfl⟩ := (rotating.owners other slot).mp owned
  have entered : index < past.length := by
    simpa using (List.getElem?_eq_some_iff.mp named).1
  have oldest : ¬ past.length + 1 ≤ index + 255 := by
    intro younger
    have kept := (rotating.owners_enter counted unwrapped new other (slotAt index)).mpr
      (.inr ⟨owned, (slotAt_free unwrapped entered round).mpr younger⟩)
    exact ne_of_lookup kept lost rfl
  have place : past.length - 255 = index := by omega
  rw [rotating.order, place, List.head?_drop, named]

/-- A thread keeps its slot while fewer than 255 others are entered after it.
Events may refer to it by this slot in between. -/
theorem Rotating.recent {past later : List (FxtWriter × ThreadId)} {w w' : FxtWriter}
    {thread : ThreadId} (rotating : Rotating (past ++ (w, thread) :: later) w')
    (few : later.length < 255) :
    w'.threadTable.lookup thread = some (slotAt past.length) := by
  have length : (past ++ (w, thread) :: later).length = past.length + (later.length + 1) := by
    rw [List.length_append, List.length_cons]
  -- The thread was entered as the one numbered `past.length`.
  refine (rotating.owners thread _).mpr ⟨past.length, by omega, ?_, rfl⟩
  rw [List.map_append, List.getElem?_append_right (by rw [List.length_map]), List.length_map,
    Nat.sub_self]
  rfl

/-- A run recycles its slots as a circular buffer if and only if it enters at
most 256 threads. -/
theorem circular_iff (calls : List WriterCall) :
    Circular calls ↔ (threadJournal calls).length ≤ 256 := by
  obtain ⟨final, within⟩ := threadJournal_recycled calls
  constructor
  · intro circular
    by_contra wrapped
    obtain ⟨window, consecutive, round, repeated⟩ := slots_repeat (Nat.not_le.mp wrapped)
    rw [← announcedSlots_eq] at consecutive
    exact repeated (circular.apart window consecutive round)
  · intro few
    refine ⟨?_, ?_, ?_⟩
    · intro window consecutive round
      rw [announcedSlots_eq] at consecutive
      exact slots_apart few consecutive round
    · intro before w thread after split other owned lost
      have recycled := within before w thread after split
      have new := threadJournal_new calls (w, thread) (by rw [split]; simp)
      rw [split, List.length_append, List.length_cons] at few
      exact (recycled.rotating (by omega)).senior recycled.counted (by omega) new owned lost
    · intro before w thread after split
      have recycled := within before w thread after split
      have new := threadJournal_new calls (w, thread) (by rw [split]; simp)
      have slot : (w.ensureThread thread.pid thread.tid).2 = slotAt before.length :=
        (enter_effect new).2.2.2.trans recycled.counted.slot
      rw [split, List.length_append, List.length_cons] at few
      rw [slot]
      constructor
      · rintro between w' next later rfl recent
        have recycled' := within (before ++ (w, thread) :: between) w' next later (by
          rw [split, List.append_assoc, List.cons_append])
        rw [List.length_append] at few
        exact (recycled'.rotating (by
          rw [List.length_append, List.length_cons]
          omega)).recent recent
      · intro recent
        rw [split] at final
        exact (final.rotating (by
          rw [List.length_append, List.length_cons]
          omega)).recent recent

/-- The threads of one process, each entered by a call of its own. Their thread
ids count up from 0. -/
def enterThreads (count : Nat) : List WriterCall :=
  (List.range count).map (fun n => .ensureThread 1 n.toUInt64)

/-- Different threads are all entered. There are enough ids for the bound. -/
theorem threadJournal_distinct {count : Nat} (few : count ≤ 2 ^ 64) :
    (threadJournal (enterThreads count)).map Prod.snd =
      (List.range count).map (fun n => (⟨1, n.toUInt64⟩ : ThreadId)) := by
  induction count with
  | zero => rfl
  | succ count inductionHypothesis =>
    have entered := inductionHypothesis (Nat.le_of_succ_le few)
    have calls : enterThreads (count + 1) =
        enterThreads count ++ [.ensureThread 1 count.toUInt64] := by
      rw [enterThreads, List.range_succ, List.map_append]
      rfl
    have new : (afterCalls (enterThreads count)).threadTable.lookup ⟨1, count.toUInt64⟩ = none := by
      cases owned : (afterCalls (enterThreads count)).threadTable.lookup ⟨1, count.toUInt64⟩ with
      | none => rfl
      | some slot =>
        have known := (threadJournal_recycled (enterThreads count)).1.counted.entered _ _ owned
        rw [entered] at known
        obtain ⟨n, small, same⟩ := List.mem_map.mp known
        have smaller := List.mem_range.mp small
        have numbers := congrArg UInt64.toNat (congrArg ThreadId.tid same)
        simp only [Nat.toUInt64, UInt64.toNat_ofNat'] at numbers
        omega
    have added : callThreads (afterCalls (enterThreads count)) (.ensureThread 1 count.toUInt64) =
        [(afterCalls (enterThreads count), ⟨1, count.toUInt64⟩)] := by
      rw [callThreads, newThread, new]
    rw [calls, threadJournal, journalFrom_append, List.map_append, ← threadJournal, entered,
      List.range_succ, List.map_append]
    change _ ++ List.map Prod.snd (callThreads (afterCalls (enterThreads count))
      (.ensureThread 1 count.toUInt64) ++ []) = _
    rw [added]
    rfl

/-- With 257 threads the last one takes the slot of the one entered just before
it. -/
theorem circular_not_beyond : ¬ Circular (enterThreads 257) := by
  intro circular
  have entered := congrArg List.length (@threadJournal_distinct 257 (by norm_num))
  rw [List.length_map, List.length_map, List.length_range] at entered
  obtain ⟨window, consecutive, round, repeated⟩ :=
    @slots_repeat 257 (by norm_num)
  rw [← entered, ← announcedSlots_eq] at consecutive
  exact repeated (circular.apart window consecutive round)

end Tracey.FxtWriter
