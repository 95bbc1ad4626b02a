import Tracey.PerfEvent
import Tracey.Slices

/-!
# The trace filter

The filter stands between the parser and the stack reconstructor and lets
through the regions between two symbols. It decides about each event when it
arrives; what it lets through altogether is compared with a cut of the whole
sequence into slices.

`sliceCount` is an unbounded integer: an overflow of the `int` of the source has
no defined behaviour.
-/

namespace Tracey

namespace TraceFilter

/-- The symbols that delimit a region: an empty start symbol starts from the
beginning, an empty end symbol records until the trace ends. -/
structure Config where
  startSymbol : Text := []
  endSymbol : Text := []
  multiSlice : Bool := false
deriving DecidableEq, Repr

/-- What the filter is doing: it waits for the start symbol, it lets everything
through, or it has seen its one slice and lets nothing through any more. -/
inductive State where
  | waiting
  | recording
  | done
deriving DecidableEq, Repr

end TraceFilter

/-- The filter: its configuration and what it has seen. The configuration never
changes; the count and the flag are reported when the trace has been decoded. -/
structure TraceFilter where
  config : TraceFilter.Config
  state : TraceFilter.State
  sliceCount : Int := 0
  sawStart : Bool := false
deriving DecidableEq, Repr

namespace TraceFilter

/-- The constructor: without a start symbol the filter records immediately. It
never waits then, not even behind the end of a slice. -/
def create (config : Config) : TraceFilter :=
  { config, state := if config.startSymbol = [] then .recording else .waiting }

/-- Whether a branch leaves or reaches a symbol that starts with the target. An
empty target is no symbol's beginning here, though it is every text's. -/
def symbolMatches (branch : BranchData) (target : Text) : Bool :=
  if target = [] then false
  else target.isPrefixOf branch.src.symbol || target.isPrefixOf branch.dst.symbol

/-- Whether a branch leaves or reaches the start symbol. It is asked only while
the filter waits. -/
def matchesStart (filter : TraceFilter) (branch : BranchData) : Bool :=
  symbolMatches branch filter.config.startSymbol

/-- Whether a branch leaves or reaches the end symbol. Without an end symbol no
branch does. -/
def matchesEnd (filter : TraceFilter) (branch : BranchData) : Bool :=
  symbolMatches branch filter.config.endSymbol

/-- Whether an event passes, and the filter behind it. The branches that open
and close a slice belong to it; any other event passes exactly while the filter
records and changes nothing. -/
def shouldPass (filter : TraceFilter) (event : Event) : TraceFilter × Bool :=
  match event with
  | .ok { data := .branch branch, .. } =>
    match filter.state with
    | .waiting =>
      if filter.matchesStart branch then
        ({ filter with sawStart := true, state := .recording }, true)
      else (filter, false)
    | .recording =>
      if filter.config.endSymbol ≠ [] ∧ filter.matchesEnd branch then
        ({ filter with
            sliceCount := filter.sliceCount + 1
            state :=
              if filter.config.multiSlice then
                if filter.config.startSymbol = [] then .recording else .waiting
              else .done },
          true)
      else (filter, true)
    | .done => (filter, false)
  | _ => (filter, filter.state = .recording)

/-- Whether a start symbol is given and has not been seen, which is reported at
the end. -/
def startSymbolMissing (filter : TraceFilter) : Bool :=
  filter.config.startSymbol ≠ [] && !filter.sawStart

/-- The filter behind a sequence of events, and each event with the answer it
got. -/
def passAll : TraceFilter → List Event → TraceFilter × List (Event × Bool)
  | filter, [] => (filter, [])
  | filter, event :: rest =>
    let answer := filter.shouldPass event
    ((passAll answer.1 rest).1, (event, answer.2) :: (passAll answer.1 rest).2)

/-- Whether the event is a branch from or to a symbol with the marker at its
front. The filter asks for a beginning only, so that a marker names all symbols
that start with it. -/
def names (marker : Text) : Event → Bool
  | .ok { data := .branch branch, .. } =>
    marker.isPrefixOf branch.src.symbol || marker.isPrefixOf branch.dst.symbol
  | _ => false

/-- What begins a slice: nothing need be waited for without a start symbol. It
is a partial value because an event that begins a slice belongs to it, and with
no start symbol there is no such event. -/
def Config.begins (config : Config) : Option (Event → Bool) :=
  if config.startSymbol = [] then none else some (names config.startSymbol)

/-- What ends a slice: nothing does without an end symbol. -/
def Config.ends (config : Config) (event : Event) : Bool :=
  config.endSymbol ≠ [] && names config.endSymbol event

/-- The slices and gaps of a sequence of events. It is a cut of the whole
sequence, made without a state; the filter has to find it event by event. -/
def Config.pieces (config : Config) (events : List Event) : List (Slices.Piece Event) :=
  Slices.pieces config.begins config.ends config.multiSlice events

/-- The filter as it waits for what begins a slice. With no start symbol it is
already recording then. -/
def armed (filter : TraceFilter) : TraceFilter :=
  { filter with state := if filter.config.startSymbol = [] then .recording else .waiting }

/-- The filter behind a slice it has closed. It counts the slice, and is armed
again only if several slices are wanted. -/
def close (filter : TraceFilter) : TraceFilter :=
  { filter with
    sliceCount := filter.sliceCount + 1
    state :=
      if filter.config.multiSlice then
        if filter.config.startSymbol = [] then .recording else .waiting
      else .done }

section OneEvent

variable {filter : TraceFilter} {event : Event}

/-- A waiting filter opens at an event that begins a slice. The start symbol has
been seen from then on, whatever happens later. -/
theorem shouldPass_opens (waiting : filter.state = .waiting)
    (configured : filter.config.startSymbol ≠ [])
    (opens : names filter.config.startSymbol event = true) :
    filter.shouldPass event = ({ filter with sawStart := true, state := .recording }, true) := by
  unfold names at opens
  split at opens
  · next branch =>
    simp [shouldPass, waiting, matchesStart, symbolMatches, configured, opens]
  · cases opens

/-- A waiting filter stays as it is at any other event. An event that is no
branch never opens a slice. -/
theorem shouldPass_waits (waiting : filter.state = .waiting)
    (other : names filter.config.startSymbol event = false) :
    filter.shouldPass event = (filter, false) := by
  unfold names at other
  unfold shouldPass
  split
  · simp only [waiting, matchesStart, symbolMatches]
    simp only at other
    simp [other]
  · simp [waiting]

/-- A recording filter closes the slice at an event that ends it. The event
itself passes, as the last one of its slice. -/
theorem shouldPass_closes (recording : filter.state = .recording)
    (ends : filter.config.ends event = true) : filter.shouldPass event = (filter.close, true) := by
  obtain ⟨configured, named⟩ : filter.config.endSymbol ≠ [] ∧
      names filter.config.endSymbol event = true := by simpa [Config.ends] using ends
  unfold names at named
  split at named
  · next branch =>
    simp [shouldPass, recording, matchesEnd, symbolMatches, configured, named, close]
  · cases named

/-- A recording filter stays as it is at any other event. Without an end symbol
this is every event. -/
theorem shouldPass_records (recording : filter.state = .recording)
    (other : filter.config.ends event = false) : filter.shouldPass event = (filter, true) := by
  unfold shouldPass
  split
  · next branch =>
    have unended : ¬(filter.config.endSymbol ≠ [] ∧ filter.matchesEnd branch = true) := by
      rintro ⟨configured, found⟩
      simp only [matchesEnd, symbolMatches, configured, if_false] at found
      simp [Config.ends, names, configured, found] at other
    simp only [recording, unended, if_false]
  · simp [recording]

/-- Behind the last slice nothing passes. The filter never leaves this state. -/
theorem shouldPass_done (done : filter.state = .done) :
    filter.shouldPass event = (filter, false) := by
  unfold shouldPass
  split
  · simp [done]
  · simp [done]

end OneEvent

/-- Passing two sequences of events in a row is passing the second from the
state that the first has left the filter in. -/
theorem passAll_append (filter : TraceFilter) (first second : List Event) :
    filter.passAll (first ++ second) =
      (((filter.passAll first).1.passAll second).1,
        (filter.passAll first).2 ++ ((filter.passAll first).1.passAll second).2) := by
  induction first generalizing filter with
  | nil => rfl
  | cons event rest inductionHypothesis =>
    simp only [List.cons_append, passAll, inductionHypothesis]

/-- A filter that stays as it is at every event gives every event the same
answer. -/
theorem passAll_idle {filter : TraceFilter} {answer : Bool} {events : List Event}
    (idle : ∀ event ∈ events, filter.shouldPass event = (filter, answer)) :
    filter.passAll events = (filter, events.map (·, answer)) := by
  induction events with
  | nil => rfl
  | cons event rest inductionHypothesis =>
    obtain ⟨first, others⟩ := List.forall_mem_cons.mp idle
    rw [passAll, first, inductionHypothesis others, List.map_cons]

/-- What a filter has become when a slice is open: it records, and nothing has
been counted for this slice yet. -/
structure Opened (filter recorder : TraceFilter) : Prop where
  recording : recorder.state = .recording
  config : recorder.config = filter.config
  count : recorder.sliceCount = filter.sliceCount
  saw : filter.config.startSymbol ≠ [] → recorder.sawStart = true

/-- A filter ready for the next slice reaches it over the gap. The event that
opens the slice passes; where nothing is waited for the gap is empty. -/
theorem passAll_opening {filter : TraceFilter} {events skipped opened rest : List Event}
    (ready : filter.armed = filter)
    (start : Slices.opening filter.config.begins events = some (skipped, opened, rest)) :
    ∃ recorder, filter.Opened recorder ∧ events = skipped ++ opened ++ rest ∧
      filter.passAll (skipped ++ opened) =
        (recorder, skipped.map (·, false) ++ opened.map (·, true)) := by
  by_cases immediate : filter.config.startSymbol = []
  · rw [Config.begins, if_pos immediate] at start
    simp only [Slices.opening, Option.some.injEq, Prod.mk.injEq] at start
    obtain ⟨rfl, rfl, rfl⟩ := start
    have recording : filter.state = .recording := by
      rw [← ready]
      simp [armed, immediate]
    exact ⟨filter, ⟨recording, rfl, rfl, fun configured => absurd immediate configured⟩, rfl, rfl⟩
  · rw [Config.begins, if_neg immediate] at start
    obtain ⟨first, rfl, opens, cut, others⟩ := Slices.opening_some start
    have waiting : filter.state = .waiting := by
      rw [← ready]
      simp [armed, immediate]
    refine ⟨{ filter with sawStart := true, state := .recording }, ⟨rfl, rfl, rfl, fun _ => rfl⟩,
      by rw [cut, List.append_assoc]; rfl, ?_⟩
    rw [passAll_append, passAll_idle (fun event member =>
      shouldPass_waits waiting (others event member))]
    simp only [passAll, shouldPass_opens waiting immediate opens, List.map_cons, List.map_nil]

/-- A recording filter reaches the end of its slice. All events of the slice
pass, the last one included. -/
theorem passAll_closing {filter : TraceFilter} {events body rest : List Event}
    (recording : filter.state = .recording)
    (stop : Slices.closing filter.config.ends events = some (body, rest)) :
    filter.passAll body = (filter.close, body.map (·, true)) := by
  obtain ⟨inner, last, rfl, ends, -, others⟩ := Slices.closing_some stop
  rw [passAll_append, passAll_idle (fun event member =>
    shouldPass_records recording (others event member))]
  simp only [passAll, shouldPass_closes recording ends, List.map_append, List.map_cons, List.map_nil]

/-- A filter ready for the next slice answers as the cut of the whole sequence
does: it marks every event as its piece does, and counts the slices that are
closed. -/
structure FollowsCut (filter : TraceFilter) (events : List Event) : Prop where
  marked : (filter.passAll events).2 =
    (filter.config.pieces events).flatMap Slices.Piece.marked
  counted : (filter.passAll events).1.sliceCount =
    filter.sliceCount + (filter.config.pieces events).countP Slices.Piece.isClosed
  configured : (filter.passAll events).1.config = filter.config
  saw : filter.config.startSymbol ≠ [] → (filter.passAll events).1.sawStart =
    (filter.sawStart || (filter.config.pieces events).any Slices.Piece.isSlice)

/-- The answers behind a closed slice: none passes, or the cut starts again. In
the second case the filter is as good as new, but for its count. -/
theorem close_follows {filter : TraceFilter} {after : List Event}
    (again : filter.close.armed = filter.close → filter.close.FollowsCut after) :
    (filter.close.passAll after).2 =
        (if filter.config.multiSlice then filter.config.pieces after
          else [.gap after]).flatMap Slices.Piece.marked ∧
      (filter.close.passAll after).1.sliceCount = filter.sliceCount + 1 +
        (if filter.config.multiSlice then filter.config.pieces after
          else [.gap after]).countP Slices.Piece.isClosed ∧
      (filter.close.passAll after).1.config = filter.config ∧
      (filter.config.startSymbol ≠ [] → filter.sawStart = true →
        (filter.close.passAll after).1.sawStart = true) := by
  by_cases many : filter.config.multiSlice = true
  · have follows := again (by simp [armed, close, many])
    rw [if_pos many]
    refine ⟨follows.marked, follows.counted, follows.configured, fun configured seen => ?_⟩
    rw [follows.saw configured]
    exact Bool.or_eq_true_iff.mpr (.inl seen)
  · have done : filter.close.state = .done := by simp [close, many]
    rw [if_neg many, passAll_idle (fun event _ => shouldPass_done done)]
    refine ⟨by simp [Slices.Piece.marked], by simp [close, Slices.Piece.isClosed], rfl, ?_⟩
    exact fun _ seen => seen

/-- When no further slice opens, nothing passes. -/
theorem waiting_follows {filter : TraceFilter} (ready : filter.armed = filter)
    {events : List Event} (start : Slices.opening filter.config.begins events = none) :
    filter.FollowsCut events := by
  have cut : filter.config.pieces events = [.gap events] := Slices.pieces_waiting start
  have configured : filter.config.startSymbol ≠ [] := by
    intro immediate
    simp [Config.begins, immediate, Slices.opening] at start
  have waiting : filter.state = .waiting := by
    rw [← ready]
    simp [armed, configured]
  have unnamed : ∀ event ∈ events, names filter.config.startSymbol event = false := by
    rw [Config.begins, if_neg configured] at start
    exact Slices.opening_none.mp start
  have idle := passAll_idle (fun event member => shouldPass_waits waiting (unnamed event member))
  constructor
  · simp [idle, cut, Slices.Piece.marked]
  · simp [idle, cut, Slices.Piece.isClosed]
  · rw [idle]
  · simp [idle, cut, Slices.Piece.isSlice]

/-- When the slice that opens is never closed, everything in it passes. Such a
slice is not counted. -/
theorem open_follows {filter : TraceFilter} (ready : filter.armed = filter)
    {events skipped opened rest : List Event}
    (start : Slices.opening filter.config.begins events = some (skipped, opened, rest))
    (stop : Slices.closing filter.config.ends rest = none) : filter.FollowsCut events := by
  obtain ⟨recorder, begun, parts, reached⟩ := passAll_opening ready start
  have cut : filter.config.pieces events = [.gap skipped, .slice (opened ++ rest) false] :=
    Slices.pieces_open start stop
  have run : filter.passAll events = (recorder,
      skipped.map (·, false) ++ opened.map (·, true) ++ rest.map (·, true)) := by
    rw [parts, passAll_append, reached, passAll_idle (fun event member =>
      shouldPass_records begun.recording (by
        rw [begun.config]
        exact Slices.closing_none.mp stop event member))]
  constructor
  · simp [run, cut, Slices.Piece.marked]
  · simp [run, cut, Slices.Piece.isClosed, begun.count]
  · rw [run, begun.config]
  · intro configured
    simp [run, cut, Slices.Piece.isSlice, begun.saw configured]

/-- When the slice that opens is closed, the answers behind it are those of what
the filter has become. -/
theorem closed_follows {filter : TraceFilter} (ready : filter.armed = filter)
    {events skipped opened rest body after : List Event}
    (start : Slices.opening filter.config.begins events = some (skipped, opened, rest))
    (stop : Slices.closing filter.config.ends rest = some (body, after))
    (again : ∀ next : TraceFilter, next.armed = next → next.FollowsCut after) :
    filter.FollowsCut events := by
  obtain ⟨recorder, begun, parts, reached⟩ := passAll_opening ready start
  have cut : filter.config.pieces events = .gap skipped :: .slice (opened ++ body) true ::
      if filter.config.multiSlice then filter.config.pieces after else [.gap after] :=
    Slices.pieces_closed start stop
  have restCut : rest = body ++ after := by
    obtain ⟨inner, last, rfl, -, whole, -⟩ := Slices.closing_some stop
    rw [whole, List.append_assoc]
    rfl
  have closed := passAll_closing begun.recording (begun.config ▸ stop)
  have run : filter.passAll events = ((recorder.close.passAll after).1,
      skipped.map (·, false) ++ opened.map (·, true) ++ (body.map (·, true) ++
        (recorder.close.passAll after).2)) := by
    rw [parts, restCut, passAll_append, reached, passAll_append, closed]
  obtain ⟨marked, counted, configured, saw⟩ := @close_follows recorder after (again _)
  rw [begun.config] at marked counted configured saw
  constructor
  · simp [run, cut, Slices.Piece.marked, marked]
  · simp only [run, cut, counted, begun.count, List.countP_cons, Slices.Piece.isClosed]
    simp only [Bool.false_eq_true, if_false, if_true, Nat.cast_add, Nat.cast_one]
    omega
  · rw [run, configured]
  · intro needed
    rw [run, saw needed (begun.saw needed)]
    simp [cut, Slices.Piece.isSlice]

/-- A filter that is ready for the next slice follows the cut.

Induct over the length of the sequence: behind a closed slice a shorter one is
left. -/
theorem ready_follows (filter : TraceFilter) (ready : filter.armed = filter)
    (events : List Event) : filter.FollowsCut events := by
  induction size : events.length using Nat.strong_induction_on generalizing filter events with
  | _ size inductionHypothesis =>
    subst size
    cases start : Slices.opening filter.config.begins events with
    | none => exact waiting_follows ready start
    | some found =>
      obtain ⟨skipped, opened, rest⟩ := found
      cases stop : Slices.closing filter.config.ends rest with
      | none => exact open_follows ready start stop
      | some found =>
        obtain ⟨body, after⟩ := found
        have shorter : after.length < events.length := Nat.lt_of_lt_of_le
          (Slices.closing_shorter stop) (Slices.opening_shorter start)
        apply closed_follows ready start stop
        intro next armed
        exact inductionHypothesis after.length shorter next armed after rfl

/-- The filter passes exactly the slices of the whole sequence, counts those
that are closed, and misses the start symbol when one is configured and no event
names it. -/
theorem slices_pass (config : Config) (events : List Event) :
    ((create config).passAll events).2 =
        (config.pieces events).flatMap Slices.Piece.marked ∧
      ((create config).passAll events).1.sliceCount =
        (config.pieces events).countP Slices.Piece.isClosed ∧
      (((create config).passAll events).1.startSymbolMissing = true ↔
        config.startSymbol ≠ [] ∧ ∀ event ∈ events, names config.startSymbol event = false) := by
  have follows := ready_follows (create config) rfl events
  refine ⟨follows.marked, by simpa [create] using follows.counted, ?_⟩
  have kept : ((create config).passAll events).1.config = config := follows.configured
  by_cases immediate : config.startSymbol = []
  · simp [startSymbolMissing, kept, immediate]
  · have saw : ((create config).passAll events).1.sawStart =
        (config.pieces events).any Slices.Piece.isSlice := by
      simpa [create] using follows.saw immediate
    have begun : (config.pieces events).any Slices.Piece.isSlice =
        (Slices.opening (some (names config.startSymbol)) events).isSome := by
      rw [Config.pieces, Slices.pieces_isSlice, Config.begins, if_neg immediate]
    rw [startSymbolMissing, kept, saw, begun, ← Slices.opening_none]
    simp [immediate]

end TraceFilter

end Tracey
