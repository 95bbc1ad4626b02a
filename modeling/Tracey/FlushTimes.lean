import Tracey.Timing

/-!
# The times of a flush

A flush divides the time between the pending time and the time flushed to among
the pending calls. Every call takes an equal part of it, rounded down or up to
nanoseconds, and together they take all of it; the other events take no time.
The code divides what is left by the number of calls left, again for each call.
-/

namespace Tracey

open EvenSpread

namespace Handling

/-- Events written at times that divide the time between two times evenly among
the calls, which take these shares of it. -/
structure DividesEvenly (start toTime : UInt64) (news : List Write) (shares : List Nat) : Prop where
  count : shares.length = news.countP (fun w => isCall w.event)
  /-- An event comes behind what the calls before it take. -/
  placed : ∀ front w back, news = front ++ w :: back →
    w.time.toNat = start.toNat + (shares.take (front.countP (fun v => isCall v.event))).sum
  sorted : news.Pairwise (fun first second => first.time ≤ second.time)
  first : ∀ w ∈ news.head?, w.time = start
  within : start ≤ toTime → ∀ w ∈ news, w.time ≤ toTime
  even : start ≤ toTime → ∀ share ∈ shares,
    share = (toTime.toNat - start.toNat) / shares.length ∨
      share = (toTime.toNat - start.toNat) ⌈/⌉ shares.length
  total : start ≤ toTime → shares ≠ [] → shares.sum = toTime.toNat - start.toNat
  last : start ≤ toTime → ∀ front w back, news = front ++ w :: back →
    (∃ v ∈ front, isCall v.event = true) → (∀ v ∈ w :: back, isCall v.event = false) →
      w.time = toTime
  still : shares = [] ∨ toTime < start → ∀ w ∈ news, w.time = start

/-- The shares of the pending calls in a flush. They are in the order of the
calls, in nanoseconds. -/
def callShares (h : Handling) (toTime : UInt64) : List Nat :=
  shares isCall (h.totalNs toTime).toNat 0 h.thread.pendingEvents

/-- The time spread is the time between, if there is any. The subtraction does
not wrap. -/
theorem totalNs_later {h : Handling} {toTime : UInt64} (later : h.thread.pendingTime ≤ toTime) :
    (h.totalNs toTime).toNat = toTime.toNat - h.thread.pendingTime.toNat := by
  have ordered := UInt64.le_iff_toNat_le.mp later
  unfold totalNs
  split
  · exact UInt64.toNat_sub_of_le _ _ later
  · next notLater =>
    have reached := UInt64.le_iff_toNat_le.mp (UInt64.not_lt.mp notLater)
    rw [UInt64.toNat_zero]
    omega

/-- There is nothing to spread up to a time that has passed already. Everything
is written at the pending time then. -/
theorem totalNs_earlier {h : Handling} {toTime : UInt64} (earlier : toTime < h.thread.pendingTime) :
    h.totalNs toTime = 0 := if_neg (UInt64.not_lt.mpr (UInt64.le_of_lt earlier))

/-- What is written comes behind what the calls before it take. A return is
therefore written where the call before it has stopped taking time. -/
theorem placements_time (h : Handling) (toTime : UInt64) {front back : List Write} {w : Write}
    (split : (h.placements toTime).map h.place = front ++ w :: back) :
    w.time.toNat = h.thread.pendingTime.toNat +
      ((h.callShares toTime).take (front.countP (fun v => isCall v.event))).sum := by
  obtain ⟨before, behind, parts, rfl, rest⟩ := List.map_eq_append_iff.mp split
  obtain ⟨placed, after, rfl, rfl, rfl⟩ := List.map_eq_cons_iff.mp rest
  have member : placed ∈ h.placements toTime := by
    rw [parts]
    exact List.mem_append_right before List.mem_cons_self
  rw [(h.place_time toTime member).1, spread_shares 0 parts, Nat.zero_add, List.countP_map]
  rfl

/-- There is a share for each call that is written. A share may be empty, where
there is less time than calls. -/
theorem length_callShares (h : Handling) (toTime : UInt64) : (h.callShares toTime).length =
    ((h.placements toTime).map h.place).countP (fun w => isCall w.event) := by
  rw [callShares, length_shares, ← (h.flush_flushed toTime).events, List.countP_map]
  rfl

/-- If there are calls, they take all the time. No nanosecond is lost to
rounding. -/
theorem sum_callShares {h : Handling} {toTime : UInt64} (later : h.thread.pendingTime ≤ toTime)
    (calling : h.callShares toTime ≠ []) :
    (h.callShares toTime).sum = toTime.toNat - h.thread.pendingTime.toNat := by
  have calls := List.length_pos_iff.mpr calling
  rw [callShares, length_shares] at calls
  rw [callShares, shares_sum (Nat.zero_le _) calls, totalNs_later later, Nat.sub_zero]

/-- What is written behind the last call is at the end. This is the time that is
flushed to. -/
theorem placements_last {h : Handling} {toTime : UInt64} (later : h.thread.pendingTime ≤ toTime)
    {front back : List Write} {w : Write}
    (split : (h.placements toTime).map h.place = front ++ w :: back)
    (called : ∃ v ∈ front, isCall v.event = true)
    (done : ∀ v ∈ w :: back, isCall v.event = false) :
    w.time = toTime := by
  have all : front.countP (fun v => isCall v.event) = (h.callShares toTime).length := by
    have others : (w :: back).countP (fun v => isCall v.event) = 0 :=
      List.countP_eq_zero.mpr (fun v member => by rw [done v member]; exact Bool.false_ne_true)
    rw [length_callShares, split, List.countP_append, others, Nat.add_zero]
  have nonempty : h.callShares toTime ≠ [] := by
    obtain ⟨v, member, call⟩ := called
    have positive : 0 < front.countP (fun v => isCall v.event) :=
      List.countP_pos_iff.mpr ⟨v, member, call⟩
    rw [all] at positive
    exact List.length_pos_iff.mp positive
  have time := h.placements_time toTime split
  have ordered := UInt64.le_iff_toNat_le.mp later
  rw [all, List.take_length, sum_callShares later nonempty] at time
  apply UInt64.toNat_inj.mp
  omega

/-- Without calls, or without time to divide, all that is written stays at the
start. -/
theorem placements_still {h : Handling} {toTime : UInt64}
    (idle : h.callShares toTime = [] ∨ toTime < h.thread.pendingTime) {w : Write}
    (member : w ∈ (h.placements toTime).map h.place) : w.time = h.thread.pendingTime := by
  rcases idle with callless | earlier
  · obtain ⟨front, back, split⟩ := List.append_of_mem member
    have time := h.placements_time toTime split
    rw [callless, List.take_nil] at time
    exact UInt64.toNat_inj.mp time
  · obtain ⟨place, inside, rfl⟩ := List.mem_map.mp member
    obtain ⟨here, bound⟩ := h.place_time toTime inside
    rw [totalNs_earlier earlier, UInt64.toNat_zero] at bound
    apply UInt64.toNat_inj.mp
    omega

/-- A flush divides the time evenly. Its last part is about a flush to an
earlier time, which writes everything at the pending time. -/
theorem flush_divides (h : Handling) (toTime : UInt64) :
    DividesEvenly h.thread.pendingTime toTime ((h.placements toTime).map h.place)
      (h.callShares toTime) where
  count := h.length_callShares toTime
  placed := fun _ _ _ split => h.placements_time toTime split
  sorted := (h.flush_flushed toTime).sorted
  first := by
    intro w head
    obtain ⟨rest, whole⟩ := List.head?_eq_some_iff.mp head
    have time := h.placements_time toTime (whole.trans (List.nil_append _).symm)
    exact UInt64.toNat_inj.mp time
  within := by
    intro later w member
    exact ((h.flush_flushed toTime).upper w member).elim (fun bound => UInt64.le_trans bound later) id
  even := by
    intro later share member
    have even := shares_even _ share member
    rw [totalNs_later later] at even
    rw [callShares, length_shares]
    exact even
  total := fun later calling => sum_callShares later calling
  last := fun later _ _ _ split called done => placements_last later split called done
  still := fun idle _ member => placements_still idle member

/-- In the loop of a flush, every number divided by is positive. So the division
in it is always defined. -/
def LoopDivides (consumers : Int) : Int → List PendingEvent → Prop
  | _, [] => True
  | sharesConsumed, ev :: rest =>
    if ev.kind = .call then
      let sharesConsumed := sharesConsumed + 1
      let remaining := consumers - sharesConsumed + 1
      0 < remaining ∧ LoopDivides consumers sharesConsumed rest
    else LoopDivides consumers sharesConsumed rest

/-- That the divisors of the loop are positive says so of each turn that
divides. -/
theorem loopDivides_iff (totalNs : UInt64) (consumers : Int) (nsOffset : UInt64)
    (sharesConsumed : Int) (events : List PendingEvent) :
    LoopDivides consumers sharesConsumed events ↔
      ∀ step ∈ flushSteps totalNs consumers nsOffset sharesConsumed events,
        ∀ divided ∈ step.divided, 0 < divided.1 := by
  induction events generalizing nsOffset sharesConsumed with
  | nil => exact iff_of_true trivial (fun step member => absurd member List.not_mem_nil)
  | cons ev rest inductionHypothesis =>
    by_cases call : ev.kind = .call
    · simp only [LoopDivides, flushSteps, if_pos call, List.forall_mem_cons, Option.mem_some_iff,
        forall_eq', ← inductionHypothesis]
    · have idle : ∀ divided ∈ (none : Option (Int × UInt64)), 0 < divided.1 := by
        intro divided taken
        cases taken
      rw [LoopDivides, if_neg call, inductionHypothesis nsOffset sharesConsumed, flushSteps,
        if_neg call, List.forall_mem_cons]
      exact (and_iff_right idle).symm

/-- The number divided by counts the calls left, the present one among them. The
count that the source keeps agrees with the events that are left. -/
theorem loop_divides {consumers sharesConsumed : Int} {events : List PendingEvent}
    (counted : consumers = sharesConsumed + (events.countP isCall : Nat)) :
    LoopDivides consumers sharesConsumed events := by
  induction events generalizing sharesConsumed with
  | nil => trivial
  | cons ev rest inductionHypothesis =>
    by_cases call : ev.kind = .call
    · have count : (ev :: rest).countP isCall = rest.countP isCall + 1 :=
        List.countP_cons_of_pos (decide_eq_true call)
      rw [LoopDivides, if_pos call]
      exact ⟨by omega, inductionHypothesis (by omega)⟩
    · have idle : isCall ev = false := decide_eq_false call
      have count := countP_idle idle rest
      rw [LoopDivides, if_neg call]
      exact inductionHypothesis (by omega)

/-- The turns of a flush from this state. Nothing is left out of them: they
determine what is written. -/
def steps (h : Handling) (toTime : UInt64) : List FlushStep :=
  flushSteps (h.totalNs toTime) (timeConsumers h.thread.pendingEvents) 0 0 h.thread.pendingEvents

/-- What a flush writes, its turns write, each of them for one pending event,
without wrapping and without a division by zero. -/
theorem flush_steps (h : Handling) (toTime : UInt64) :
    (h.flush toTime).writes =
        h.writes ++ (h.steps toTime).map (FlushStep.write h.key h.thread.pendingTime) ∧
      ∀ step ∈ h.steps toTime, step.Exact h.thread.pendingTime (h.totalNs toTime) ∧
        ∀ divided ∈ step.divided, 0 < divided.1 := by
  have exact := (loopExact_iff _ _ _ _ _ _).mp (h.flush_place toTime).2
  have divides := (loopDivides_iff (h.totalNs toTime) _ 0 0 h.thread.pendingEvents).mp
    (loop_divides (Int.zero_add _).symm)
  refine ⟨?_, fun step member => ⟨exact step member, divides step member⟩⟩
  have loop := flushLoop_steps h.key h.thread.pendingTime (h.totalNs toTime)
    (timeConsumers h.thread.pendingEvents) 0 0 h.thread.pendingEvents
  unfold flush
  split
  · next idle =>
    rw [steps, idle]
    exact (List.append_nil _).symm
  · exact congrArg (h.writes ++ ·) loop

/-- A flush writes the pending events in order and divides the time between the
pending time and the time flushed to evenly among the calls. Nothing it computes
wraps, and it never divides by zero. -/
theorem flush_even (h : Handling) (toTime : UInt64) :
    ∃ news shares, (h.flush toTime).writes = h.writes ++ news ∧
      news.map Write.event = h.thread.pendingEvents ∧
      DividesEvenly h.thread.pendingTime toTime news shares ∧ h.FlushExact toTime ∧
      LoopDivides (timeConsumers h.thread.pendingEvents) 0 h.thread.pendingEvents :=
  ⟨(h.placements toTime).map h.place, h.callShares toTime, (h.flush_place toTime).1,
    (h.flush_flushed toTime).events, h.flush_divides toTime, (h.flush_place toTime).2,
    loop_divides (Int.zero_add _).symm⟩

end Handling

end Tracey
