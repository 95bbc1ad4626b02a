import Mathlib

/-!
# Numbering by order of arrival

Values are numbered from 1 as they first arrive, up to a capacity. Whatever
arrives beyond the capacity shares the number 1 with the first arrival. A value
keeps its number whatever arrives later, and no other number is shared.
-/

namespace Tracey.ArrivalOrder

variable {α : Type*} [DecidableEq α]

/-- The values that have arrived, in the order of their first arrival. A value
that arrives again is where it was. -/
def arrive (seen : List α) (value : α) : List α :=
  if value ∈ seen then seen else seen ++ [value]

/-- The position of a value among those that have arrived, or their number. In
the second case it is the one a newcomer would get. -/
def position (seen : List α) (value : α) : Nat := seen.idxOf value

/-- The number of a value that has arrived, from 1 on. All that do not fit get
the number 1. -/
def number (capacity : Nat) (seen : List α) (value : α) : Nat :=
  if position seen value < capacity then position seen value + 1 else 1

/-- What has arrived before changes nothing. -/
theorem arrive_known {seen : List α} {value : α} (known : value ∈ seen) :
    arrive seen value = seen := if_pos known

/-- What is new arrives behind all others. -/
theorem arrive_new {seen : List α} {value : α} (new : value ∉ seen) :
    arrive seen value = seen ++ [value] := if_neg new

/-- Nobody leaves when somebody arrives. The order only grows at its end. -/
theorem arrive_grown (seen : List α) (value : α) : seen <+: arrive seen value := by
  unfold arrive
  split
  · exact List.prefix_refl seen
  · exact List.prefix_append seen [value]

/-- Those who are there behind an arrival are those who were, and the one who
came. -/
theorem mem_arrive {seen : List α} {value other : α} :
    other ∈ arrive seen value ↔ other ∈ seen ∨ other = value := by
  unfold arrive
  split
  · next known =>
    constructor
    · exact .inl
    · rintro (old | rfl)
      · exact old
      · exact known
  · rw [List.mem_append, List.mem_singleton]

/-- Whoever has arrived has a place in the order. Its number is then one of
those in use. -/
theorem position_lt {seen : List α} {value : α} (arrived : value ∈ seen) :
    position seen value < seen.length := List.idxOf_lt_length_of_mem arrived

/-- The values that have arrived keep their positions. So a position that was
handed out stays valid. -/
theorem position_grown {seen more : List α} (grown : seen <+: more) {value : α}
    (arrived : value ∈ seen) : position more value = position seen value := by
  obtain ⟨rest, rfl⟩ := grown
  exact List.idxOf_append_of_mem arrived

/-- Later arrivals do not change a number. This holds also for a value that has
had to share. -/
theorem number_grown {capacity : Nat} {seen more : List α} (grown : seen <+: more) {value : α}
    (arrived : value ∈ seen) : number capacity more value = number capacity seen value := by
  rw [number, number, position_grown grown arrived]

/-- Values that have arrived at the same position are the same. The order has no
repetitions to worry about here. -/
theorem position_inj {seen : List α} {value other : α} (arrived : value ∈ seen)
    (same : position seen value = position seen other) : value = other := by
  have bound := position_lt arrived
  have otherBound : position seen other < seen.length := same ▸ bound
  have found : seen[position seen value] = value := List.getElem_idxOf bound
  have otherFound : seen[position seen other] = other := List.getElem_idxOf otherBound
  rw [← found, ← otherFound]
  simp only [same]

/-- A new value is behind all others. -/
theorem position_new {seen : List α} {value : α} (new : value ∉ seen) :
    position (arrive seen value) value = seen.length := by
  rw [arrive_new new, position, List.idxOf_append_of_notMem new, List.idxOf_cons_self,
    Nat.add_zero]

end Tracey.ArrivalOrder
