import Tracey.EvenSpread
import Tracey.Nesting

/-!
# Times

A flush places the pending events evenly between the time they wait at and the
time flushed to. Nothing in that arithmetic wraps, from any state: the part used
up never exceeds the total, and the total is what lies between two times.

From this every time of a thread is bounded by that of its last event, and every
end is written no earlier than anything written before it: when an end is
recorded, at the time of the current event, whatever is flushed before it is
bounded by that time, and afterwards the pending time only moves when the
pending events are written.
-/

namespace Tracey

open EvenSpread BracketWord

namespace Handling

/-- Whether an event takes time. Only calls take part in the division. -/
def isCall (ev : PendingEvent) : Bool := ev.kind = .call

/-- The time that a flush spreads. It is 0 if the time flushed to is not later
than that of what is pending. -/
def totalNs (h : Handling) (toTime : UInt64) : UInt64 :=
  if toTime > h.thread.pendingTime then toTime - h.thread.pendingTime else 0

/-- One turn of the loop of `flush` with the numbers it works with: the event it
writes, what has been used up before it, and, for a call, the number it divides
by and the share that comes out. -/
structure FlushStep where
  event : PendingEvent
  nsOffset : UInt64
  divided : Option (Int × UInt64)

/-- The turns of the loop of `flush`. This is `flushLoop` with its numbers kept
instead of its writes, which are what remains of the turns when the numbers are
forgotten. -/
def flushSteps (totalNs : UInt64) (consumers : Int) :
    UInt64 → Int → List PendingEvent → List FlushStep
  | _, _, [] => []
  | nsOffset, sharesConsumed, ev :: rest =>
    if ev.kind = .call then
      let sharesConsumed := sharesConsumed + 1
      let remaining := consumers - sharesConsumed + 1
      let nsShare :=
        if remaining > 0 then UInt64.ofNat ((totalNs - nsOffset).toNat / remaining.toNat) else 0
      ⟨ev, nsOffset, some (remaining, nsShare)⟩ ::
        flushSteps totalNs consumers (nsOffset + nsShare) sharesConsumed rest
    else ⟨ev, nsOffset, none⟩ :: flushSteps totalNs consumers nsOffset sharesConsumed rest

/-- What a turn writes. Its place in the total comes on top of the pending time. -/
def FlushStep.write (key : ThreadKey) (pendingTime : UInt64) (step : FlushStep) : Write :=
  ⟨key, pendingTime + step.nsOffset, step.event⟩

/-- What a turn computes does not wrap: the time it writes, and for a call the
difference that it divides and the sum that the next turn starts from. -/
def FlushStep.Exact (pendingTime totalNs : UInt64) (step : FlushStep) : Prop :=
  pendingTime.toNat + step.nsOffset.toNat < 2 ^ 64 ∧
    ∀ divided ∈ step.divided,
      step.nsOffset ≤ totalNs ∧ step.nsOffset.toNat + divided.2.toNat < 2 ^ 64

/-- The loop of `flush` writes what its turns write.

Induct over the events; both recursions take the same branch with the same
numbers. -/
theorem flushLoop_steps (key : ThreadKey) (pendingTime totalNs : UInt64) (consumers : Int)
    (nsOffset : UInt64) (sharesConsumed : Int) (events : List PendingEvent) :
    flushLoop key pendingTime totalNs consumers nsOffset sharesConsumed events =
      (flushSteps totalNs consumers nsOffset sharesConsumed events).map
        (FlushStep.write key pendingTime) := by
  induction events generalizing nsOffset sharesConsumed with
  | nil => rfl
  | cons ev rest inductionHypothesis =>
    by_cases call : ev.kind = .call
    · simp only [flushLoop, flushSteps, if_pos call, List.map_cons, inductionHypothesis]
      rfl
    · simp only [flushLoop, flushSteps, if_neg call, List.map_cons, inductionHypothesis]
      rfl

/-- No sum and no difference in the loop of `flush` wraps. So each value in the
loop is the number it stands for. -/
def LoopExact (pendingTime totalNs : UInt64) (consumers : Int) :
    UInt64 → Int → List PendingEvent → Prop
  | _, _, [] => True
  | nsOffset, sharesConsumed, ev :: rest =>
    pendingTime.toNat + nsOffset.toNat < 2 ^ 64 ∧
      if ev.kind = .call then
        let sharesConsumed := sharesConsumed + 1
        let remaining := consumers - sharesConsumed + 1
        let nsShare :=
          if remaining > 0 then UInt64.ofNat ((totalNs - nsOffset).toNat / remaining.toNat) else 0
        nsOffset ≤ totalNs ∧ nsOffset.toNat + nsShare.toNat < 2 ^ 64 ∧
          LoopExact pendingTime totalNs consumers (nsOffset + nsShare) sharesConsumed rest
      else LoopExact pendingTime totalNs consumers nsOffset sharesConsumed rest

/-- That nothing wraps in the loop says so of each of its turns, and nothing
more. -/
theorem loopExact_iff (pendingTime totalNs : UInt64) (consumers : Int) (nsOffset : UInt64)
    (sharesConsumed : Int) (events : List PendingEvent) :
    LoopExact pendingTime totalNs consumers nsOffset sharesConsumed events ↔
      ∀ step ∈ flushSteps totalNs consumers nsOffset sharesConsumed events,
        step.Exact pendingTime totalNs := by
  induction events generalizing nsOffset sharesConsumed with
  | nil => exact iff_of_true trivial (fun step member => absurd member List.not_mem_nil)
  | cons ev rest inductionHypothesis =>
    by_cases call : ev.kind = .call
    · simp only [LoopExact, flushSteps, if_pos call, List.forall_mem_cons, inductionHypothesis,
        FlushStep.Exact, Option.mem_some_iff, forall_eq', and_assoc]
    · simp only [LoopExact, flushSteps, if_neg call, List.forall_mem_cons, inductionHypothesis,
        FlushStep.Exact, Option.mem_def, reduceCtorEq, false_imp_iff, forall_const, and_true]

/-- The share of a call in the code's numbers, which count the calls that
remain. -/
theorem share_call {totalNs nsOffset : UInt64} {remaining : Int} {ev : PendingEvent}
    {rest : List PendingEvent} (call : ev.kind = .call)
    (left : remaining = (rest.countP isCall + 1 : Nat)) (enough : nsOffset.toNat ≤ totalNs.toNat) :
    (if remaining > 0 then UInt64.ofNat ((totalNs - nsOffset).toNat / remaining.toNat)
      else 0).toNat = share isCall totalNs.toNat nsOffset.toNat ev rest := by
  have difference : (totalNs - nsOffset).toNat = totalNs.toNat - nsOffset.toNat :=
    UInt64.toNat_sub_of_le _ _ (UInt64.le_iff_toNat_le.mpr enough)
  have positive : remaining > 0 := by
    rw [left]
    omega
  have count : remaining.toNat = rest.countP isCall + 1 := by
    rw [left]
    rfl
  have used : share isCall totalNs.toNat nsOffset.toNat ev rest =
      (totalNs.toNat - nsOffset.toNat) / (rest.countP isCall + 1) := if_pos (decide_eq_true call)
  have bound := share_le isCall totalNs.toNat nsOffset.toNat ev rest
  have small : share isCall totalNs.toNat nsOffset.toNat ev rest < 2 ^ 64 := by
    have limit := totalNs.toNat_lt
    omega
  rw [if_pos positive, difference, count, ← used]
  exact UInt64.toNat_ofNat_of_lt' small

/-- The loop of `flush` spreads the total over the calls, without wrapping.

Induct over the events; the calls that remain are those that are still to come. -/
theorem flushLoop_spread (key : ThreadKey) (pendingTime totalNs : UInt64) (consumers : Int)
    (nsOffset : UInt64) (sharesConsumed : Int) (events : List PendingEvent)
    (counted : consumers = sharesConsumed + (events.countP isCall : Nat))
    (enough : nsOffset.toNat ≤ totalNs.toNat)
    (inside : pendingTime.toNat + totalNs.toNat < 2 ^ 64) :
    flushLoop key pendingTime totalNs consumers nsOffset sharesConsumed events =
        (spread isCall totalNs.toNat nsOffset.toNat events).map
          (fun placed => ⟨key, pendingTime + UInt64.ofNat placed.2, placed.1⟩) ∧
      LoopExact pendingTime totalNs consumers nsOffset sharesConsumed events := by
  induction events generalizing nsOffset sharesConsumed with
  | nil => exact ⟨rfl, trivial⟩
  | cons ev rest inductionHypothesis =>
    have placed : pendingTime + UInt64.ofNat nsOffset.toNat = pendingTime + nsOffset := by
      rw [UInt64.ofNat_toNat]
    have room : pendingTime.toNat + nsOffset.toNat < 2 ^ 64 := by omega
    by_cases call : ev.kind = .call
    · have count : (ev :: rest).countP isCall = rest.countP isCall + 1 :=
        List.countP_cons_of_pos (decide_eq_true call)
      have left : consumers - (sharesConsumed + 1) + 1 = (rest.countP isCall + 1 : Nat) := by
        rw [counted, count]
        omega
      have given := share_call call left enough
      have bound := share_le isCall totalNs.toNat nsOffset.toNat ev rest
      simp only [flushLoop, LoopExact, if_pos call]
      generalize (if consumers - (sharesConsumed + 1) + 1 > 0 then UInt64.ofNat
        ((totalNs - nsOffset).toNat / (consumers - (sharesConsumed + 1) + 1).toNat) else 0) =
          nsShare at given ⊢
      have next : (nsOffset + nsShare).toNat =
          nsOffset.toNat + share isCall totalNs.toNat nsOffset.toNat ev rest := by
        rw [UInt64.toNat_add, given]
        apply Nat.mod_eq_of_lt
        omega
      obtain ⟨loop, unwrapped⟩ := inductionHypothesis (nsOffset + nsShare) (sharesConsumed + 1)
        (by rw [counted, count]; omega) (by rw [next]; omega)
      constructor
      · simp only [loop, spread, List.map_cons, placed, next]
      · exact ⟨room, UInt64.le_iff_toNat_le.mpr enough, by omega, unwrapped⟩
    · have idle : isCall ev = false := decide_eq_false call
      have count := countP_idle idle rest
      obtain ⟨loop, unwrapped⟩ := inductionHypothesis nsOffset sharesConsumed
        (by rw [counted, count]) enough
      constructor
      · simp only [flushLoop, if_neg call, loop, spread, List.map_cons, placed,
          share_idle isCall totalNs.toNat idle, Nat.add_zero]
      · simp only [LoopExact, if_neg call]
        exact ⟨room, unwrapped⟩

/-- The arithmetic of a flush does not wrap. The difference from the pending
time is only taken when the time flushed to is later. -/
def FlushExact (h : Handling) (toTime : UInt64) : Prop :=
  LoopExact h.thread.pendingTime (h.totalNs toTime) (timeConsumers h.thread.pendingEvents) 0 0
    h.thread.pendingEvents

/-- What a flush writes: each pending event, between the pending time and the
time flushed to, never earlier than the one before. An event stays at the
pending time when no call comes before it, or when at least as many calls come
after it as there are nanoseconds to spread. -/
structure Flushed (h : Handling) (toTime : UInt64) (news : List Write) : Prop where
  writes : (h.flush toTime).writes = h.writes ++ news
  events : news.map Write.event = h.thread.pendingEvents
  lower : ∀ w ∈ news, h.thread.pendingTime ≤ w.time
  upper : ∀ w ∈ news, w.time ≤ h.thread.pendingTime ∨ w.time ≤ toTime
  sorted : news.Pairwise (fun first second => first.time ≤ second.time)
  still : ∀ w ∈ news, ∃ front back, h.thread.pendingEvents = front ++ w.event :: back ∧
    ((∀ ev ∈ front, isCall ev = false) → w.time = h.thread.pendingTime) ∧
    ((h.totalNs toTime).toNat ≤ back.countP isCall → w.time = h.thread.pendingTime)

/-- The total lies between the pending time and the time flushed to. -/
theorem totalNs_cases (h : Handling) (toTime : UInt64) :
    h.totalNs toTime = 0 ∨
      h.thread.pendingTime.toNat + (h.totalNs toTime).toNat = toTime.toNat := by
  unfold totalNs
  split
  · next later =>
    have before : h.thread.pendingTime.toNat < toTime.toNat := UInt64.lt_iff_toNat_lt.mp later
    right
    rw [UInt64.toNat_sub_of_le _ _ (UInt64.le_iff_toNat_le.mpr (Nat.le_of_lt before))]
    omega
  · exact .inl rfl

/-- The total can be added to the pending time. The result is the time flushed
to, or the pending time itself. -/
theorem totalNs_room (h : Handling) (toTime : UInt64) :
    h.thread.pendingTime.toNat + (h.totalNs toTime).toNat < 2 ^ 64 := by
  rcases h.totalNs_cases toTime with nothing | reaches
  · rw [nothing]
    exact h.thread.pendingTime.toNat_lt
  · rw [reaches]
    exact toTime.toNat_lt

/-- A pending event with its place in the total. Places are natural numbers and
do not wrap. -/
def placements (h : Handling) (toTime : UInt64) : List (PendingEvent × Nat) :=
  spread isCall (h.totalNs toTime).toNat 0 h.thread.pendingEvents

/-- The write of a placed event. -/
def place (h : Handling) (placed : PendingEvent × Nat) : Write :=
  ⟨h.key, h.thread.pendingTime + UInt64.ofNat placed.2, placed.1⟩

/-- A flush writes the placed events, and its arithmetic does not wrap. So the
loop of the source spreads as the library does. -/
theorem flush_place (h : Handling) (toTime : UInt64) :
    (h.flush toTime).writes = h.writes ++ (h.placements toTime).map h.place ∧
      h.FlushExact toTime := by
  obtain ⟨loop, unwrapped⟩ := flushLoop_spread h.key h.thread.pendingTime (h.totalNs toTime)
    (timeConsumers h.thread.pendingEvents) 0 0 h.thread.pendingEvents (Int.zero_add _).symm
    (Nat.zero_le _) (h.totalNs_room toTime)
  refine ⟨?_, unwrapped⟩
  unfold flush
  split
  · next idle =>
    rw [placements, idle]
    exact (List.append_nil _).symm
  · exact congrArg (h.writes ++ ·) loop

/-- The time of a placed event is the pending time and its place. It lies in the
stretch that the flush covers. -/
theorem place_time (h : Handling) (toTime : UInt64) {placed : PendingEvent × Nat}
    (member : placed ∈ h.placements toTime) :
    (h.place placed).time.toNat = h.thread.pendingTime.toNat + placed.2 ∧
      placed.2 ≤ (h.totalNs toTime).toNat := by
  have room := h.totalNs_room toTime
  have bound := (spread_bounds (Nat.zero_le _) h.thread.pendingEvents placed member).2
  have small : placed.2 < 2 ^ 64 := by omega
  refine ⟨?_, bound⟩
  rw [place, UInt64.toNat_add, UInt64.toNat_ofNat_of_lt' small]
  apply Nat.mod_eq_of_lt
  omega

/-- What a flush writes are the placed events, which has all that is asked of
it: the bounds and the order come from the spread, and the placement from the
position of an event among the calls. -/
theorem flush_flushed (h : Handling) (toTime : UInt64) :
    Flushed h toTime ((h.placements toTime).map h.place) where
  writes := (h.flush_place toTime).1
  events := by
    rw [List.map_map]
    exact spread_items 0 h.thread.pendingEvents
  lower := by
    intro w member
    obtain ⟨placed, inside, rfl⟩ := List.mem_map.mp member
    have time := (h.place_time toTime inside).1
    apply UInt64.le_iff_toNat_le.mpr
    omega
  upper := by
    intro w member
    obtain ⟨placed, inside, rfl⟩ := List.mem_map.mp member
    obtain ⟨time, bound⟩ := h.place_time toTime inside
    rcases h.totalNs_cases toTime with nothing | reaches
    · left
      apply UInt64.le_iff_toNat_le.mpr
      rw [nothing, UInt64.toNat_zero] at bound
      omega
    · right
      apply UInt64.le_iff_toNat_le.mpr
      omega
  sorted := by
    rw [List.pairwise_map]
    have sorted : (spread isCall (h.totalNs toTime).toNat 0 h.thread.pendingEvents).Pairwise
        (fun first second => first.2 ≤ second.2) := spread_sorted (Nat.zero_le _) _
    refine sorted.imp_of_mem ?_
    intro first second firstInside secondInside ordered
    have firstTime := (h.place_time toTime firstInside).1
    have secondTime := (h.place_time toTime secondInside).1
    apply UInt64.le_iff_toNat_le.mpr
    omega
  still := by
    intro w member
    obtain ⟨placed, inside, rfl⟩ := List.mem_map.mp member
    obtain ⟨front, back, whole, unused, few⟩ := spread_position h.thread.pendingEvents inside
    have time := (h.place_time toTime inside).1
    refine ⟨front, back, whole, ?_, ?_⟩
    · intro idle
      rw [unused idle] at time
      exact UInt64.toNat_inj.mp time
    · intro many
      rw [few rfl many] at time
      exact UInt64.toNat_inj.mp time

/-- The duration events written so far. They are in the order of the file. -/
def stamps (h : Handling) : List Stamp := h.writes.flatMap Write.stamps

/-- The bounds on the times of a thread. No time in it is later than that of the
thread's last event, and no end is earlier than what was written before it. -/
structure Timely (h : Handling) : Prop where
  pendingTime : h.thread.pendingTime ≤ h.thread.lastEventTime
  createTime : h.thread.callstack.createTime ≤ h.thread.lastEventTime
  saved : ∀ callstack ∈ h.saved, callstack.createTime ≤ h.thread.lastEventTime
  reset : ∀ ev ∈ h.thread.pendingEvents, ev.kind = .retFromUntraced →
    ev.resetTime ≤ h.thread.pendingTime
  written : ∀ stamp ∈ h.stamps, stamp.timestamp ≤ h.thread.lastEventTime
  ends : h.stamps.Pairwise (fun first second =>
    second.eventType = 3 → first.timestamp ≤ second.timestamp)
  waiting : (∃ ev ∈ h.thread.pendingEvents, ev.kind ≠ .call) →
    ∀ stamp ∈ h.stamps, stamp.timestamp ≤ h.thread.pendingTime

/-- A thread that has not begun keeps the bounds, since nothing is written. -/
theorem timely_fresh (key : ThreadKey) : Timely ⟨key, {}, []⟩ where
  pendingTime := UInt64.le_refl _
  createTime := UInt64.le_refl _
  saved := by
    intro callstack member
    cases member
  reset := by
    intro ev member
    cases member
  written := by
    intro stamp member
    cases member
  ends := List.Pairwise.nil
  waiting := by
    intro _ stamp member
    cases member

/-- Time only moves on when an event arrives. -/
theorem arrive_timely {h : Handling} (timely : Timely h) {time : UInt64}
    (later : h.thread.lastEventTime ≤ time) : Timely (h.arrive time) where
  pendingTime := UInt64.le_trans timely.pendingTime later
  createTime := UInt64.le_trans timely.createTime later
  saved := fun callstack member => UInt64.le_trans (timely.saved callstack member) later
  reset := timely.reset
  written := fun stamp member => UInt64.le_trans (timely.written stamp member) later
  ends := timely.ends
  waiting := timely.waiting

/-- A write's events bear its time, but for the begin of an untraced return.
Such a begin lies back at the time the stack was made. -/
theorem stamp_time {w : Write} {stamp : Stamp} (member : stamp ∈ w.stamps) :
    stamp.timestamp = w.time ∨
      (w.event.kind = .retFromUntraced ∧ stamp.eventType = 2 ∧
        stamp.timestamp = w.event.resetTime) := by
  unfold Write.stamps at member
  split at member
  · rw [List.mem_singleton.mp member]
    exact .inl rfl
  · rw [List.mem_singleton.mp member]
    exact .inl rfl
  · next kind =>
    rcases List.mem_cons.mp member with rfl | last
    · exact .inr ⟨kind, rfl, rfl⟩
    · rw [List.mem_singleton.mp last]
      exact .inl rfl

/-- A write that ends something is not a call. Calls only begin something. -/
theorem stamp_end {w : Write} {stamp : Stamp} (member : stamp ∈ w.stamps)
    (ends : stamp.eventType = 3) : w.event.kind ≠ .call ∧ stamp.timestamp = w.time := by
  constructor
  · intro call
    rw [Write.stamps, call] at member
    rw [List.mem_singleton.mp member] at ends
    exact absurd ends (by decide : ¬ (2 : UInt8) = 3)
  · rcases stamp_time member with same | ⟨_, begins, _⟩
    · exact same
    · rw [begins] at ends
      exact absurd ends (by decide : ¬ (2 : UInt8) = 3)

/-- Behind a flush the duration events are those before it and then those of
what it writes. -/
theorem Flushed.stamps {h : Handling} {toTime : UInt64} {news : List Write}
    (flushed : Flushed h toTime news) :
    (h.flush toTime).stamps = h.stamps ++ news.flatMap Write.stamps := by
  rw [Handling.stamps, flushed.writes, List.flatMap_append]
  rfl

/-- What a flush writes was pending. -/
theorem Flushed.pending {h : Handling} {toTime : UInt64} {news : List Write}
    (flushed : Flushed h toTime news) {w : Write} (member : w ∈ news) :
    w.event ∈ h.thread.pendingEvents := by
  rw [← flushed.events]
  exact List.mem_map_of_mem member

/-- Every event of a write made by a flush is written no later than the write.
The begin of an untraced return may lie further back. -/
theorem Flushed.stamp_le {h : Handling} {toTime : UInt64} {news : List Write}
    (flushed : Flushed h toTime news) (timely : Timely h) {w : Write} (member : w ∈ news)
    {stamp : Stamp} (inside : stamp ∈ w.stamps) : stamp.timestamp ≤ w.time := by
  rcases stamp_time inside with same | ⟨untraced, _, reset⟩
  · rw [same]
    exact UInt64.le_refl _
  · rw [reset]
    exact UInt64.le_trans (timely.reset w.event (flushed.pending member) untraced)
      (flushed.lower w member)

/-- No end that a flush writes is earlier than anything written before it. Ends
written by one flush are in order among each other, too. -/
theorem Flushed.ends {h : Handling} {toTime : UInt64} {news : List Write}
    (flushed : Flushed h toTime news) (timely : Timely h) :
    (h.flush toTime).stamps.Pairwise (fun first second =>
      second.eventType = 3 → first.timestamp ≤ second.timestamp) := by
  rw [flushed.stamps, List.pairwise_append, List.pairwise_flatMap]
  refine ⟨timely.ends, ⟨?_, ?_⟩, ?_⟩
  · intro w member
    apply List.pairwise_of_forall_mem_list
    intro first mine second its ends
    rw [(stamp_end its ends).2]
    exact flushed.stamp_le timely member mine
  · refine flushed.sorted.imp_of_mem ?_
    intro first second firstInside secondInside ordered stamp mine other its ends
    rw [(stamp_end its ends).2]
    exact UInt64.le_trans (flushed.stamp_le timely firstInside mine) ordered
  · intro stamp old other new ends
    obtain ⟨w, inside, mine⟩ := List.mem_flatMap.mp new
    obtain ⟨kind, time⟩ := stamp_end mine ends
    rw [time]
    exact UInt64.le_trans (timely.waiting ⟨w.event, flushed.pending inside, kind⟩ stamp old)
      (flushed.lower w inside)

/-- What a flush leaves behind, whether or not something was pending. In the
second case nothing was pending. -/
theorem flush_time (h : Handling) (toTime : UInt64) :
    (h.flush toTime).thread.pendingTime = toTime ∨
      (h.flush toTime).thread.pendingTime = h.thread.pendingTime := by
  unfold flush
  split
  · exact .inr rfl
  · exact .inl rfl

/-- Flushing to a time that is not in the future keeps the bounds. The time it
flushes to is that of an event that has arrived. -/
theorem flush_timely {h : Handling} (timely : Timely h) {toTime : UInt64}
    (past : toTime ≤ h.thread.lastEventTime) : Timely (h.flush toTime) := by
  have flushed := h.flush_flushed toTime
  generalize (h.placements toTime).map h.place = news at flushed
  have nothing := h.flush_pending toTime
  constructor
  case pendingTime =>
    rw [flush_lastEventTime]
    rcases h.flush_time toTime with moved | same
    · rw [moved]
      exact past
    · rw [same]
      exact timely.pendingTime
  case createTime =>
    rw [flush_lastEventTime, flush_callstack]
    exact timely.createTime
  case saved =>
    rw [flush_lastEventTime, Handling.saved, flush_saved]
    exact timely.saved
  case reset =>
    rw [nothing]
    intro ev member
    cases member
  case written =>
    rw [flushed.stamps, flush_lastEventTime]
    intro stamp member
    rcases List.mem_append.mp member with old | new
    · exact timely.written stamp old
    · obtain ⟨w, inside, mine⟩ := List.mem_flatMap.mp new
      have bound := flushed.stamp_le timely inside mine
      rcases flushed.upper w inside with before | before
      · exact UInt64.le_trans bound (UInt64.le_trans before timely.pendingTime)
      · exact UInt64.le_trans bound (UInt64.le_trans before past)
  case ends => exact flushed.ends timely
  case waiting =>
    rw [nothing]
    rintro ⟨ev, member, _⟩
    cases member

/-- Appending an event to what is pending, at its time. -/
def push (h : Handling) (time : UInt64) (ev : PendingEvent) (stack : List Location) : Handling :=
  { h with
    thread.pendingTime := time
    thread.pendingEvents := h.thread.pendingEvents ++ [ev]
    thread.callstack.stack := stack }

/-- Recording an event flushes first, if something is pending at another time.
Otherwise the event joins those that are pending. -/
theorem record_push (h : Handling) (time : UInt64) (ev : PendingEvent) (stack : List Location) :
    (time ≠ h.thread.pendingTime ∧ h.thread.pendingEvents ≠ [] ∧
        h.record time ev stack = (h.flush time).push time ev stack) ∨
      ((time = h.thread.pendingTime ∨ h.thread.pendingEvents = []) ∧
        h.record time ev stack = h.push time ev stack) := by
  by_cases late : time ≠ h.thread.pendingTime ∧ h.thread.pendingEvents ≠ []
  · left
    refine ⟨late.1, late.2, ?_⟩
    simp only [record, addEvent, if_pos late]
    rfl
  · right
    constructor
    · by_cases same : time = h.thread.pendingTime
      · exact .inl same
      · right
        by_contra nonempty
        exact late ⟨same, nonempty⟩
    · simp only [record, addEvent, if_neg late]
      rfl

/-- Recording an event keeps the bounds: a call may lie in the past, an end lies
at the time of the current event, and an untraced return begins before it ends. -/
theorem record_timely {h : Handling} (timely : Timely h) {time : UInt64} (ev : PendingEvent)
    (stack : List Location) (past : time ≤ h.thread.lastEventTime)
    (present : ev.kind ≠ .call → time = h.thread.lastEventTime)
    (begun : ev.kind = .retFromUntraced → ev.resetTime ≤ time) :
    Timely (h.record time ev stack) := by
  have pushed : ∀ h : Handling, Timely h → time ≤ h.thread.lastEventTime →
      (ev.kind ≠ .call → time = h.thread.lastEventTime) →
      (time = h.thread.pendingTime ∨ h.thread.pendingEvents = []) →
      Timely (h.push time ev stack) := by
    intro h timely past present apart
    refine ⟨past, timely.createTime, timely.saved, ?_, timely.written, timely.ends, ?_⟩
    · intro other member untraced
      rcases List.mem_append.mp member with old | new
      · rcases apart with same | empty
        · exact same ▸ timely.reset other old untraced
        · rw [empty] at old
          cases old
      · rw [List.mem_singleton.mp new] at untraced ⊢
        exact begun untraced
    · rintro ⟨other, member, kind⟩ stamp written
      rcases List.mem_append.mp member with old | new
      · rcases apart with same | empty
        · exact same ▸ timely.waiting ⟨other, old, kind⟩ stamp written
        · rw [empty] at old
          cases old
      · rw [List.mem_singleton.mp new] at kind
        exact present kind ▸ timely.written stamp written
  rcases h.record_push time ev stack with ⟨_, _, flushed⟩ | ⟨apart, quiet⟩
  · rw [flushed]
    apply pushed _ (flush_timely timely past)
    · rw [flush_lastEventTime]
      exact past
    · rw [flush_lastEventTime]
      exact present
    · exact .inr (h.flush_pending time)
  · rw [quiet]
    exact pushed h timely past present apart

/-- A new stack is created at the time of the current event. The stack that is
put aside keeps the time it was made. -/
theorem save_timely {h : Handling} (timely : Timely h) {time : UInt64}
    (past : time ≤ h.thread.lastEventTime) : Timely (h.save time) := by
  refine ⟨timely.pendingTime, past, ?_, timely.reset, timely.written, timely.ends,
    timely.waiting⟩
  intro callstack member
  rcases List.mem_append.mp member with old | new
  · exact timely.saved callstack old
  · rw [List.mem_singleton.mp new]
    exact timely.createTime

/-- No operation changes the time of the last event. Only the arrival of an
event does. -/
theorem perform_lastEventTime (time : UInt64) (h : Handling) (operation : Operation) :
    (h.perform time operation).thread.lastEventTime = h.thread.lastEventTime := by
  cases operation with
  | call loc => rw [perform_call, record_lastEventTime]
  | infer loc => rw [perform_infer, record_lastEventTime]
  | enter loc =>
    rw [perform_enter, record_lastEventTime]
    rfl
  | ret => rw [perform_ret, record_lastEventTime]
  | restore =>
    simp only [perform]
    split <;> rfl
  | redate => rfl
  | flush => exact h.flush_lastEventTime time

/-- Every operation at the time of the last event keeps the bounds. An inferred
call is recorded earlier, but not before its stack was made. -/
theorem perform_timely {h : Handling} (timely : Timely h) {time : UInt64}
    (current : h.thread.lastEventTime = time) (operation : Operation) :
    Timely (h.perform time operation) := by
  have past : time ≤ h.thread.lastEventTime := current ▸ UInt64.le_refl _
  cases operation with
  | call loc =>
    rw [perform_call]
    refine record_timely timely _ _ past (fun _ => current.symm) ?_
    intro untraced
    cases untraced
  | infer loc =>
    rw [perform_infer]
    refine record_timely timely _ _ timely.createTime ?_ ?_
    · intro ends
      exact absurd rfl ends
    · intro untraced
      cases untraced
  | enter loc =>
    rw [perform_enter]
    refine record_timely (save_timely timely past) _ _ past (fun _ => current.symm) ?_
    intro untraced
    cases untraced
  | ret =>
    rw [perform_ret]
    refine record_timely timely _ _ past (fun _ => current.symm) ?_
    intro untraced
    unfold retEvent at untraced ⊢
    split at untraced
    · cases untraced
    · dsimp only
      exact current ▸ timely.createTime
  | restore =>
    simp only [perform]
    split
    · next last top =>
      refine ⟨timely.pendingTime, timely.saved last (List.mem_of_getLast? top), ?_, timely.reset,
        timely.written, timely.ends, timely.waiting⟩
      intro callstack member
      exact timely.saved callstack (List.mem_of_mem_dropLast member)
    · exact timely
  | redate =>
    exact ⟨timely.pendingTime, past, timely.saved, timely.reset, timely.written, timely.ends,
      timely.waiting⟩
  | flush => exact flush_timely timely past

/-- Operations at the time of the last event keep the bounds and that time. -/
theorem follow_timely {h : Handling} (timely : Timely h) {time : UInt64}
    (current : h.thread.lastEventTime = time) {operations : List Operation}
    (permitted : h.Permitted time operations) :
    Timely (h.follow time operations) ∧
      (h.follow time operations).thread.lastEventTime = time := by
  apply follow_keeps (P := fun h => Timely h ∧ h.thread.lastEventTime = time) _
    ⟨timely, current⟩ permitted
  rintro h operation ⟨timely, current⟩ _
  exact ⟨perform_timely timely current operation,
    (perform_lastEventTime time h operation).trans current⟩

/-- The bounds hold at the end of a life whose events come in order of time. The
first event may come at the time the thread has. -/
theorem live_timely {h : Handling} (timely : Timely h) (history : List (UInt64 × Work))
    (ordered : (h.thread.lastEventTime :: history.map Prod.fst).Pairwise (· ≤ ·)) :
    Timely (h.live history) ∧ (h.live history).thread.lastEventTime =
      (history.map Prod.fst).getLastD h.thread.lastEventTime := by
  induction history generalizing h with
  | nil => exact ⟨timely, rfl⟩
  | cons input rest inductionHypothesis =>
    rw [List.map_cons] at ordered
    obtain ⟨later, others⟩ := List.pairwise_cons.mp ordered
    have arrived := arrive_timely timely (later input.1 List.mem_cons_self)
    obtain ⟨followed, permitted⟩ := (h.arrive input.1).handle_follow input.1 input.2
    have current : (h.arrive input.1).thread.lastEventTime = input.1 := rfl
    obtain ⟨kept, last⟩ := follow_timely arrived current permitted
    rw [← followed] at kept last
    obtain ⟨timelyLast, lastTime⟩ := inductionHypothesis kept (by rw [last]; exact others)
    rw [live_cons]
    refine ⟨timelyLast, lastTime.trans ?_⟩
    rw [last, List.map_cons, List.getLastD_cons]

/-- The bounds hold when the thread is finished, at the time of its last event.
Nothing arrives then. -/
theorem finish_timely {h : Handling} (timely : Timely h) :
    Timely h.finish ∧ h.finish.thread.lastEventTime = h.thread.lastEventTime := by
  obtain ⟨followed, permitted⟩ := h.finish_follow
  rw [followed]
  exact follow_timely timely rfl permitted

end Handling

/-- The time of an event, if it has one. Errors may have none. -/
def Event.time : Event → Option UInt64
  | .ok event => some event.timeNs
  | .decodeError error => error.timeNs

/-- The times of the events, as perf prints them, never decrease. Different
threads may have events at one time. -/
def Chronological (events : List Event) : Prop := (events.filterMap Event.time).Pairwise (· ≤ ·)

/-- The time at which work is due is the time of its event. -/
theorem Event.timed_time {event : Event} {timeNs : UInt64} {work : Work}
    (timed : event.timed = some (timeNs, work)) : event.time = some timeNs := by
  cases event with
  | ok event =>
    cases data : event.data with
    | branch br =>
      simp only [Event.timed, data, Option.some.injEq, Prod.mk.injEq] at timed
      rw [← timed.1]
      rfl
    | stacktraceSample st =>
      simp only [Event.timed, data, Option.some.injEq, Prod.mk.injEq] at timed
      rw [← timed.1]
      rfl
    | power _ => simp [Event.timed, data] at timed
    | eventSample _ => simp [Event.timed, data] at timed
  | decodeError error =>
    cases known : error.timeNs with
    | none => simp [Event.timed, known] at timed
    | some found =>
      simp only [Event.timed, known, Option.map_some, Option.some.injEq, Prod.mk.injEq] at timed
      rw [← timed.1]
      exact known

/-- Of two timed events the first has the lower time. Events without a time in
between do not matter. -/
theorem Chronological.pairwise {events : List Event} (chronological : Chronological events) :
    events.Pairwise (fun first second => ∀ earlier work later work',
      first.timed = some (earlier, work) → second.timed = some (later, work') →
        earlier ≤ later) := by
  apply (List.pairwise_filterMap.mp chronological).imp
  intro first second ordered earlier work later work' timed timed'
  exact ordered earlier (Event.timed_time timed) later (Event.timed_time timed')

/-- What is in order stays so without its first event. -/
theorem Chronological.tail {event : Event} {rest : List Event}
    (chronological : Chronological (event :: rest)) : Chronological rest :=
  chronological.sublist (List.Sublist.filterMap Event.time (List.sublist_cons_self event rest))

namespace Tracker

/-- In chronological events no time lies before the base. The base is the first
of them, so that no time wraps when it is mapped. -/
theorem base_le {events : List Event} (chronological : Chronological events) {event : Event}
    (member : event ∈ events) {timeNs : UInt64} {work : Work}
    (timed : event.timed = some (timeNs, work)) : ({} : Tracker).base events ≤ timeNs := by
  induction events with
  | nil => cases member
  | cons first rest inductionHypothesis =>
    cases firstTimed : first.timed with
    | none =>
      rw [base_cons_untimed _ firstTimed]
      rcases List.mem_cons.mp member with rfl | later
      · rw [timed] at firstTimed
        cases firstTimed
      · exact inductionHypothesis chronological.tail later
    | some due =>
      obtain ⟨firstNs, firstWork⟩ := due
      have based : ({} : Tracker).base (first :: rest) = firstNs :=
        base_cons_timed _ firstTimed rest
      rw [based]
      rcases List.mem_cons.mp member with rfl | later
      · rw [firstTimed] at timed
        obtain ⟨rfl, rfl⟩ := Prod.mk.inj (Option.some.inj timed)
        exact UInt64.le_refl _
      · exact (List.pairwise_cons.mp chronological.pairwise).1 event later firstNs firstWork timeNs
          work firstTimed timed

/-- The events of a thread that have their times mapped, with these times. The
times are those of the file. -/
def timedOf (key : ThreadKey) (events : List Event) : List (UInt64 × Work) :=
  (events.filter (fun event => event.thread = key)).filterMap Event.timed

/-- The history of a thread is made of its timed events. Each time is mapped
from the base. -/
theorem history_timed (base : UInt64) (key : ThreadKey) (events : List Event) :
    history base key events =
      (timedOf key events).map (fun timed => (timed.1 - base, timed.2)) := by
  rw [← history_own, timedOf]
  have mine : ∀ event ∈ events.filter (fun event => event.thread = key), event.thread = key := by
    intro event member
    simpa using (List.mem_filter.mp member).2
  generalize events.filter (fun event => event.thread = key) = own at mine ⊢
  induction own with
  | nil => rfl
  | cons event rest inductionHypothesis =>
    have others := inductionHypothesis
      (fun other member => mine other (List.mem_cons_of_mem event member))
    have own := mine event List.mem_cons_self
    cases timed : event.timed with
    | none =>
      have unheard : input base event = none := by rw [input, timed]; rfl
      rw [history, inputs, List.filterMap_cons_none unheard, List.filterMap_cons_none timed]
      exact others
    | some due =>
      have heard : input base event = some (key, due.1 - base, due.2) := by
        rw [input, timed, own]
        rfl
      rw [history, inputs, List.filterMap_cons_some heard, List.filterMap_cons_some timed,
        KeyedMachine.own_cons_self, List.map_cons]
      exact congrArg (_ :: ·) others

/-- The mapped times of a thread's history never decrease. Subtracting the base
keeps the order. -/
theorem history_sorted {events : List Event} (chronological : Chronological events)
    (key : ThreadKey) :
    ((history (({} : Tracker).base events) key events).map Prod.fst).Pairwise (· ≤ ·) := by
  have times : (events.filter (fun event => event.thread = key)).Pairwise
      (fun first second => ∀ earlier work later work', first.timed = some (earlier, work) →
        second.timed = some (later, work') → earlier ≤ later) :=
    chronological.pairwise.sublist List.filter_sublist
  rw [history_timed, List.map_map, List.pairwise_map, timedOf, List.pairwise_filterMap]
  refine times.imp_of_mem ?_
  intro first second firstInside secondInside ordered earlier firstTimed later secondTimed
  have between := ordered earlier.1 earlier.2 later.1 later.2 firstTimed secondTimed
  have afterBase := base_le chronological (List.mem_filter.mp firstInside).1 firstTimed
  have lastAfterBase := base_le chronological (List.mem_filter.mp secondInside).1 secondTimed
  apply UInt64.le_iff_toNat_le.mpr
  have ordered := UInt64.le_iff_toNat_le.mp between
  simp only [Function.comp_apply, UInt64.toNat_sub_of_le _ _ afterBase,
    UInt64.toNat_sub_of_le _ _ lastAfterBase]
  omega

end Tracker

/-- A thread that lived through its history and was finished keeps the bounds.
The bounds are then bounds on what is in the file. -/
theorem Handling.whole_timely {events : List Event} (chronological : Chronological events)
    (key : ThreadKey) :
    let history := Tracker.history (({} : Tracker).base events) key events
    let finished := ((⟨key, {}, []⟩ : Handling).live history).finish
    finished.Timely ∧ finished.thread.lastEventTime = (history.map Prod.fst).getLastD 0 := by
  intro history finished
  have ordered : (0 :: history.map Prod.fst).Pairwise (· ≤ ·) := by
    refine List.pairwise_cons.mpr ⟨?_, Tracker.history_sorted chronological key⟩
    intro time _
    exact UInt64.zero_le
  obtain ⟨timely, last⟩ := live_timely (timely_fresh key) history ordered
  obtain ⟨timelyLast, same⟩ := finish_timely timely
  exact ⟨timelyLast, same.trans last⟩

namespace StackReconstructor

/-- The duration events that a reader sees of one thread. What was called before
the reconstructor was made shows nothing of it. -/
def seenOf (before : List WriterCall) (order : HashOrder) (events : List Event)
    (key : ThreadKey) : List Outline :=
  (outlines before order events).filter
    (fun o => o.thread = some ⟨key.pid.toUInt64, key.tid.toUInt64⟩)

/-- The durations of a thread lie inside its trace, and the clock does not wrap.
Each part is about the events a reader sees, or about the arithmetic that made
them. -/
structure DurationsFit (before : List WriterCall) (order : HashOrder) (events : List Event)
    (key : ThreadKey) : Prop where
  /-- No end is written earlier than its begin, nor than anything else before it. -/
  ends : (seenOf before order events key).Pairwise
    (fun first last => last.eventType = 3 → first.timestamp ≤ last.timestamp)
  /-- Every timestamp lies between 0 and the mapped time of the thread's last timed event. -/
  bounded : ∀ o ∈ seenOf before order events key, ∃ timeNs work,
    (Tracker.timedOf key events).getLast? = some (timeNs, work) ∧
      o.timestamp ≤ timeNs - ({} : Tracker).base events
  /-- No subtraction in `map_time` wraps. -/
  mapped : ∀ past event future timeNs work, events = past ++ event :: future →
    event.timed = some (timeNs, work) →
      ((({} : Tracker).processAll past).1.setBase timeNs).baseTime ≤ timeNs
  /-- No subtraction and no addition in `flush` wraps. -/
  flushed : ∀ h toTime, Handling.FlushExact h toTime

/-- The duration events that a reader sees of a thread are those of its own
life, outlined. -/
theorem seenOf_eq (before : List WriterCall) (order : HashOrder) (events : List Event)
    (key : ThreadKey) :
    seenOf before order events key =
      (((⟨key, {}, []⟩ : Handling).live
        (Tracker.history (({} : Tracker).base events) key events)).finish.stamps).map
          ((reconstruct before order events).outline key) := by
  have thread := outlines_thread before order events key
  rw [stampsFor, Tracker.handed_own] at thread
  exact thread

/-- For events in order of time the durations of every thread lie inside the
trace. -/
theorem durations_fit (before : List WriterCall) (order : HashOrder) (events : List Event)
    (chronological : Chronological events) (key : ThreadKey) :
    DurationsFit before order events key where
  ends := by
    rw [seenOf_eq, List.pairwise_map]
    exact (Handling.whole_timely chronological key).1.ends
  bounded := by
    intro o member
    rw [seenOf_eq] at member
    obtain ⟨stamp, written, rfl⟩ := List.mem_map.mp member
    obtain ⟨timely, last⟩ := Handling.whole_timely chronological key
    cases lastTimed : (Tracker.timedOf key events).getLast? with
    | none =>
      rw [Tracker.history_timed, List.getLast?_eq_none_iff.mp lastTimed] at written
      cases written
    | some timed =>
      have bound := timely.written stamp written
      rw [last, Tracker.history_timed, List.map_map, List.getLastD_eq_getLast?,
        List.getLast?_map, lastTimed] at bound
      exact ⟨timed.1, timed.2, rfl, bound⟩
  mapped := by
    rintro past event future timeNs work rfl timed
    have base := Tracker.processAll_base {} past (event :: future)
    rw [Tracker.base_cons_timed _ timed] at base
    rw [base]
    exact Tracker.base_le chronological (List.mem_append_right past List.mem_cons_self) timed
  flushed := fun h toTime => (h.flush_place toTime).2

/-- A call and the return from its caller, four nanoseconds later. -/
theorem durations_fit_call :
    DurationsFit [] .listed
      [.ok { pid := 1, tid := 1, timeNs := 5, data := .branch { kind := some .call } },
        .ok { pid := 1, tid := 1, timeNs := 9, data := .branch { kind := some .return } }]
      ⟨1, 1⟩ := by
  apply durations_fit
  rw [Chronological]
  decide

end StackReconstructor

end Tracey
