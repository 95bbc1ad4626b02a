import Tracey.ThreadHistory

/-!
# Threads do not interfere

Once the base of the clock is fixed, the tracker refines a family of machines
that share nothing, first on the events and then on the visits of `finish`. So
what is handed over for a thread depends only on the thread's own events and the
base.
-/

namespace Tracey

open FiniteMap KeyedMachine

namespace Tracker

/-- The base that the times of some events are mapped from: the one that is set,
or else the time of the first event that has its time mapped. -/
def base (t : Tracker) (events : List Event) : UInt64 :=
  if t.baseTimeSet then t.baseTime
  else
    match events.findSome? Event.timed with
    | some (timeNs, _) => timeNs
    | none => t.baseTime

/-- What an event asks of which thread, and when. Events that do not concern a
stack ask nothing. -/
def input (base : UInt64) (event : Event) : Option (ThreadKey × UInt64 × Work) :=
  event.timed.map (fun timed => (event.thread, timed.1 - base, timed.2))

/-- The inputs that events are for the threads. Their times are counted from the
common base. -/
def inputs (base : UInt64) (events : List Event) : List (ThreadKey × UInt64 × Work) :=
  events.filterMap (input base)

/-- The inputs of one thread. It is all that a thread lives through. -/
def history (base : UInt64) (key : ThreadKey) (events : List Event) : List (UInt64 × Work) :=
  own key (inputs base events)

/-- One thread as a machine that receives inputs and hands over writes. Its
state is what is known of the thread. -/
def receive (key : ThreadKey) (ti : ThreadInfo) (input : UInt64 × Work) :
    ThreadInfo × List Write :=
  let h := ((⟨key, ti, []⟩ : Handling).arrive input.1).handle input.1 input.2
  (h.thread, h.writes)

/-- One thread as a machine that is finished. The input says nothing, since
finishing needs none. -/
def conclude (key : ThreadKey) (ti : ThreadInfo) (_ : Unit) : ThreadInfo × List Write :=
  let h := (⟨key, ti, []⟩ : Handling).finish
  (h.thread, h.writes)

/-- Writes marked with their threads. -/
def marked (writes : List Write) : List (ThreadKey × Write) := writes.map (fun w => (w.thread, w))

/-- The writes marked with a thread are those made for it. They keep their
order. -/
theorem own_marked (key : ThreadKey) (writes : List Write) :
    own key (marked writes) = writes.filter (fun w => w.thread = key) := by
  induction writes with
  | nil => rfl
  | cons w rest inductionHypothesis =>
    rw [marked, List.map_cons]
    by_cases mine : w.thread = key
    · rw [mine, own_cons_self, List.filter_cons_of_pos (by simpa using mine)]
      exact congrArg (w :: ·) inductionHypothesis
    · rw [own_cons_other mine, List.filter_cons_of_neg (by simpa using mine)]
      exact inductionHypothesis

/-- Writes that are all for one thread are marked with it. -/
theorem marked_signed {key : ThreadKey} {writes : List Write}
    (signed : ∀ w ∈ writes, w.thread = key) : marked writes = writes.map (key, ·) := by
  apply List.map_congr_left
  intro w member
  rw [signed w member]

/-- Entering the state of a thread changes what is known of that thread, and of
no other. -/
theorem getThread_insert (t : Tracker) (key : ThreadKey) (ti : ThreadInfo) :
    { t with threads := t.threads.insert key ti }.getThread =
      Function.update t.getThread key ti := by
  funext other
  by_cases same : other = key
  · subst same
    simp [getThread]
  · simp [getThread, same]

/-- An event without a time is not handled at all. It does not set the base
either. -/
theorem processEvent_untimed (t : Tracker) {event : Event} (untimed : event.timed = none) :
    t.processEvent event = (t, []) := by
  cases event with
  | ok event =>
    cases data : event.data with
    | branch br => simp [Event.timed, data] at untimed
    | stacktraceSample st => simp [Event.timed, data] at untimed
    | power _ => simp only [processEvent, data]
    | eventSample _ => simp only [processEvent, data]
  | decodeError error =>
    have missing : error.timeNs = none := by simpa [Event.timed] using untimed
    simp only [processEvent, missing]

/-- An event with a time is handled as the work that it asks for, by the thread
it belongs to. -/
theorem processEvent_timed (t : Tracker) {event : Event} {timeNs : UInt64} {work : Work}
    (timed : event.timed = some (timeNs, work)) :
    t.processEvent event = t.handle event.thread timeNs (fun h time => h.handle time work) := by
  cases event with
  | ok event =>
    cases data : event.data with
    | branch br =>
      simp only [Event.timed, data, Option.some.injEq, Prod.mk.injEq] at timed
      obtain ⟨rfl, rfl⟩ := timed
      simp only [processEvent, data]
      rfl
    | stacktraceSample st =>
      simp only [Event.timed, data, Option.some.injEq, Prod.mk.injEq] at timed
      obtain ⟨rfl, rfl⟩ := timed
      simp only [processEvent, data]
      rfl
    | power _ => simp [Event.timed, data] at timed
    | eventSample _ => simp [Event.timed, data] at timed
  | decodeError error =>
    cases known : error.timeNs with
    | none => simp [Event.timed, known] at timed
    | some found =>
      simp only [Event.timed, known, Option.map_some, Option.some.injEq, Prod.mk.injEq] at timed
      obtain ⟨rfl, rfl⟩ := timed
      simp only [processEvent, known]
      rfl

/-- The base does not change once an event is past. -/
theorem base_cons_untimed (t : Tracker) {event : Event} (untimed : event.timed = none)
    (rest : List Event) : t.base (event :: rest) = t.base rest := by
  simp only [base, List.findSome?_cons, untimed]

/-- The base is set by the first event with a time, if it has not been set
before. -/
theorem base_cons_timed (t : Tracker) {event : Event} {timeNs : UInt64} {work : Work}
    (timed : event.timed = some (timeNs, work)) (rest : List Event) :
    t.base (event :: rest) = (t.setBase timeNs).baseTime := by
  simp only [base, List.findSome?_cons, timed, setBase]
  split <;> rfl

/-- Once a time has been mapped, the base is set. It is never set again. -/
theorem setBase_set (t : Tracker) (timeNs : UInt64) : (t.setBase timeNs).baseTimeSet = true := by
  unfold setBase
  split
  · assumption
  · rfl

/-- Setting the base touches no thread. -/
theorem setBase_threads (t : Tracker) (timeNs : UInt64) :
    (t.setBase timeNs).threads = t.threads := by
  unfold setBase
  split <;> rfl

/-- Handling an event is one step of the machine of its thread. The tracker adds
nothing but the base. -/
theorem handle_receive (t : Tracker) (key : ThreadKey) (timeNs : UInt64) (work : Work)
    (base : UInt64) (based : (t.setBase timeNs).baseTime = base) :
    let handled := t.handle key timeNs (fun h time => h.handle time work)
    let answer := receive key (t.getThread key) (timeNs - base, work)
    handled.1.getThread = Function.update t.getThread key answer.1 ∧
      marked handled.2 = answer.2.map (key, ·) ∧
      handled.1.baseTimeSet = true ∧ handled.1.baseTime = base := by
  intro handled answer
  have same : (t.setBase timeNs).getThread = t.getThread := by
    funext other
    rw [getThread, setBase_threads]
    rfl
  have thread : handled.1 = { t.setBase timeNs with
      threads := (t.setBase timeNs).threads.insert key answer.1 } := by
    simp only [handled, answer, handle, receive, mapTime, based, same]
    rfl
  have writes : handled.2 = answer.2 := by
    simp only [handled, answer, handle, receive, mapTime, based, same]
    rfl
  refine ⟨?_, ?_, ?_, ?_⟩
  · rw [thread, getThread_insert, same]
  · rw [writes]
    apply marked_signed
    exact (Handling.handle_signed (Handling.signed_fresh key _) (timeNs - base) work).2
  · rw [thread]
    exact setBase_set t timeNs
  · rw [thread]
    exact based

/-- An event leaves the base what it was for all events together. The first
timed event of all sets it. -/
theorem processEvent_base (t : Tracker) (event : Event) (rest : List Event) :
    (t.processEvent event).1.base rest = t.base (event :: rest) := by
  cases timed : event.timed with
  | none => rw [t.processEvent_untimed timed, base_cons_untimed t timed]
  | some due =>
    obtain ⟨timeNs, work⟩ := due
    obtain ⟨_, _, isSet, kept⟩ := t.handle_receive event.thread timeNs work _ rfl
    rw [t.processEvent_timed timed, base, if_pos isSet, kept, base_cons_timed t timed]

/-- The base is the same before and after a part of the events. So it can be
fixed before the first event. -/
theorem processAll_base (t : Tracker) (events rest : List Event) :
    (t.processAll events).1.base rest = t.base (events ++ rest) := by
  induction events generalizing t with
  | nil => rfl
  | cons event others inductionHypothesis =>
    rw [List.cons_append, ← processEvent_base, ← inductionHypothesis]
    rfl

/-- Processing events runs the machines of the threads on the inputs.

Induct over the events; the base is set by the first one that has its time
mapped. -/
theorem processAll_run (t : Tracker) (events : List Event) (base : UInt64)
    (based : t.base events = base) :
    (t.processAll events).1.getThread = (run receive t.getThread (inputs base events)).1 ∧
      marked (t.processAll events).2 = (run receive t.getThread (inputs base events)).2 := by
  induction events generalizing t with
  | nil => exact ⟨rfl, rfl⟩
  | cons event rest inductionHypothesis =>
    cases timed : event.timed with
    | none =>
      have quiet := t.processEvent_untimed timed
      have skipped : inputs base (event :: rest) = inputs base rest :=
        List.filterMap_cons_none (by rw [input, timed]; rfl)
      rw [base_cons_untimed t timed] at based
      simp only [processAll, quiet, skipped, List.nil_append]
      exact inductionHypothesis t based
    | some due =>
      obtain ⟨timeNs, work⟩ := due
      have received : inputs base (event :: rest) =
          (event.thread, timeNs - base, work) :: inputs base rest :=
        List.filterMap_cons_some (by rw [input, timed]; rfl)
      obtain ⟨finalStates, more⟩ := inductionHypothesis (t.processEvent event).1
        ((t.processEvent_base event rest).trans based)
      rw [base_cons_timed t timed] at based
      obtain ⟨states, writes, _, _⟩ := t.handle_receive event.thread timeNs work base based
      rw [← t.processEvent_timed timed] at states writes
      rw [states] at finalStates more
      simp only [processAll, received, run]
      refine ⟨finalStates, ?_⟩
      rw [marked, List.map_append]
      exact congrArg₂ (· ++ ·) writes more

/-- Finishing threads runs their machines once for each visit. A thread may be
visited more than once. -/
theorem finishThreads_run (t : Tracker) (keys : List ThreadKey) :
    (t.finishThreads keys).1.getThread =
        (run conclude t.getThread (keys.map (·, ()))).1 ∧
      marked (t.finishThreads keys).2 = (run conclude t.getThread (keys.map (·, ()))).2 := by
  induction keys generalizing t with
  | nil => exact ⟨rfl, rfl⟩
  | cons key rest inductionHypothesis =>
    have signed := Handling.signed_fresh key (t.getThread key)
    obtain ⟨states, writes⟩ := inductionHypothesis
      { t with threads := t.threads.insert key (conclude key (t.getThread key) ()).1 }
    rw [getThread_insert] at states writes
    refine ⟨states, ?_⟩
    simp only [finishThreads, List.map_cons, run, marked, List.map_append]
    exact congrArg₂ (· ++ ·) (marked_signed (Handling.finish_signed signed).2) writes

/-- Each thread is finished once, whatever the order. Threads without a state
have nothing to finish. -/
theorem finish_own (t : Tracker) (order : HashOrder) (key : ThreadKey) :
    (t.finish order).1.getThread key = (conclude key (t.getThread key) ()).1 ∧
      (t.finish order).2.filter (fun w => w.thread = key) =
        (conclude key (t.getThread key) ()).2 := by
  have distinct : (order.arrange t.threads.keys).Nodup :=
    (order.perm t.threads.keys).nodup_iff.mpr t.threads.keys_nodup
  obtain ⟨states, writes⟩ := t.finishThreads_run (order.arrange t.threads.keys)
  obtain ⟨state, outputs⟩ :=
    run_own conclude t.getThread ((order.arrange t.threads.keys).map (·, ())) key
  rw [← states] at state
  rw [← writes, own_marked] at outputs
  have visits : own key ((order.arrange t.threads.keys).map (·, ())) =
      if key ∈ t.threads.keys then [()] else [] := by
    rw [own_visits key distinct]
    simp only [(order.perm t.threads.keys).mem_iff]
  by_cases known : key ∈ t.threads.keys
  · rw [visits, if_pos known] at state outputs
    exact ⟨state, outputs.trans (List.append_nil _)⟩
  · have fresh : t.getThread key = {} := by
      rw [getThread, AList.lookup_eq_none.mpr known]
      rfl
    rw [visits, if_neg known] at state outputs
    rw [fresh] at state ⊢
    exact ⟨state, outputs⟩

/-- A thread alone lives through its inputs. The machine's outputs are the
writes of this life. -/
theorem solo_live (key : ThreadKey) (ti : ThreadInfo) (inputs : List (UInt64 × Work)) :
    solo (receive key) ti inputs =
      (((⟨key, ti, []⟩ : Handling).live inputs).thread,
        ((⟨key, ti, []⟩ : Handling).live inputs).writes) := by
  induction inputs generalizing ti with
  | nil => rfl
  | cons first rest inductionHypothesis =>
    have signed : Handling.Signed key ((⟨key, ti, []⟩ : Handling).arrive first.1) :=
      Handling.signed_fresh key _
    have owner := (Handling.handle_signed signed first.1 first.2).1
    have split : ((⟨key, ti, []⟩ : Handling).arrive first.1).handle first.1 first.2 =
        (⟨key, (receive key ti first).1, []⟩ : Handling).after (receive key ti first).2 :=
      (Handling.fresh_after owner).symm
    rw [solo, inductionHypothesis, Handling.live_cons, split, Handling.live_after]
    rfl

/-- The state of a thread after some events, and what was handed over for it.
Events of other threads leave no trace in either. -/
theorem processAll_own (t : Tracker) (events : List Event) (key : ThreadKey) :
    let lived := (⟨key, t.getThread key, []⟩ : Handling).live (history (t.base events) key events)
    (t.processAll events).1.getThread key = lived.thread ∧
      (t.processAll events).2.filter (fun w => w.thread = key) = lived.writes := by
  intro lived
  obtain ⟨states, writes⟩ := t.processAll_run events (t.base events) rfl
  obtain ⟨state, outputs⟩ := run_own receive t.getThread (inputs (t.base events) events) key
  rw [← states, solo_live] at state
  rw [← writes, own_marked, solo_live] at outputs
  exact ⟨state, outputs⟩

/-- What is handed over for a thread, finishing included, is what the thread
alone makes of its history. -/
theorem handed_own (t : Tracker) (order : HashOrder) (events : List Event) (key : ThreadKey) :
    (t.handed order events).filter (fun w => w.thread = key) =
      ((⟨key, t.getThread key, []⟩ : Handling).live
        (history (t.base events) key events)).finish.writes := by
  obtain ⟨state, before⟩ := t.processAll_own events key
  obtain ⟨_, last⟩ := (t.processAll events).1.finish_own order key
  have owner := (Handling.live_signed (Handling.signed_fresh key (t.getThread key))
    (history (t.base events) key events)).1
  rw [handed, List.filter_append, before, last, state]
  generalize (⟨key, t.getThread key, []⟩ : Handling).live _ = lived at owner ⊢
  have finished : lived.finish = (⟨key, lived.thread, []⟩ : Handling).finish.after lived.writes := by
    rw [← Handling.finish_after, Handling.fresh_after owner]
  rw [finished]
  rfl

end Tracker

/-- One duration event as it is handed to the writer: its type, the raw symbol
and the timestamp. -/
structure Stamp where
  eventType : UInt8
  symbol : Text
  timestamp : UInt64
deriving DecidableEq, Repr

/-- The duration events that one call of `write_pending` writes. A return from
untraced code writes two, and any other operation one. -/
def Write.stamps (w : Write) : List Stamp :=
  match w.event.kind with
  | .call => [⟨2, w.event.symbol, w.time⟩]
  | .ret => [⟨3, w.event.symbol, w.time⟩]
  | .retFromUntraced =>
    [⟨2, unknownSymbol, w.event.resetTime⟩, ⟨3, unknownSymbol, w.time⟩]

/-- The duration events of one thread. They are in the order in which they are
written. -/
def stampsFor (key : ThreadKey) (writes : List Write) : List Stamp :=
  (writes.filter (fun w => w.thread = key)).flatMap Write.stamps

namespace Tracker

/-- A tracker that has seen no thread, with its base set or not. The base may
come from another trace. -/
def idle (base : Option UInt64) : Tracker :=
  match base with
  | some timeNs => { baseTime := timeNs, baseTimeSet := true }
  | none => {}

/-- A tracker that has handled nothing knows every thread in its first state. -/
theorem getThread_idle (base : Option UInt64) (key : ThreadKey) :
    (idle base).getThread key = {} := by
  cases base <;> rfl

/-- The history of a thread is made of the thread's own events. So events of
other threads can be dropped or moved. -/
theorem history_own (base : UInt64) (key : ThreadKey) (events : List Event) :
    history base key (events.filter (fun event => event.thread = key)) =
      history base key events := by
  induction events with
  | nil => rfl
  | cons event rest inductionHypothesis =>
    have split : ∀ others, history base key (event :: others) =
        own key (input base event).toList ++ history base key others := by
      intro others
      cases received : input base event with
      | none => simp [history, inputs, received]
      | some item =>
        simp only [history, inputs, List.filterMap_cons_some received, Option.toList_some]
        exact own_append key [item] _
    by_cases mine : event.thread = key
    · rw [List.filter_cons_of_pos (by simpa using mine), split, split, inductionHypothesis]
    · have foreign : own key (input base event).toList = [] := by
        cases timed : event.timed with
        | none => simp [input, timed]
        | some due => simp [input, timed, own_cons_other mine]
      rw [List.filter_cons_of_neg (by simpa using mine), split, foreign, inductionHypothesis]
      rfl

/-- The history of a thread over two sequences of events is that over the first
and then that over the second, on the same base. -/
theorem history_append (base : UInt64) (key : ThreadKey) (events more : List Event) :
    history base key (events ++ more) = history base key events ++ history base key more := by
  rw [history, inputs, List.filterMap_append, own_append]
  rfl

/-- One timed event is one input for its thread. -/
theorem history_single (base : UInt64) {event : Event} {timeNs : UInt64} {work : Work}
    (timed : event.timed = some (timeNs, work)) :
    history base event.thread [event] = [(timeNs - base, work)] := by
  have received : inputs base [event] = [(event.thread, timeNs - base, work)] :=
    List.filterMap_cons_some (by rw [input, timed]; rfl)
  rw [history, received]
  exact own_cons_self _ _ _

/-- An event is no input for another thread. The other thread may have an input
by it. -/
theorem history_foreign (base : UInt64) {key : ThreadKey} {event : Event}
    (foreign : event.thread ≠ key) : history base key [event] = [] := by
  rw [← history_own, List.filter_cons_of_neg (by simpa using foreign)]
  rfl

/-- Two runs from the same base time in which every thread has the same history
hand over the same events for every thread, and so does the run from that base
in which the events of the other threads are left out. -/
theorem threads_isolated (start start' : Option UInt64) (events others : List Event)
    (sameBase : (idle start).base events = (idle start').base others)
    (sameHistories : ∀ key, events.filter (fun event => event.thread = key) =
      others.filter (fun event => event.thread = key))
    (order order' : HashOrder) (key : ThreadKey) :
    stampsFor key ((idle start).handed order events) =
        stampsFor key ((idle start').handed order' others) ∧
      stampsFor key ((idle start).handed order events) =
        stampsFor key ((idle (some ((idle start).base events))).handed order'
          (events.filter (fun event => event.thread = key))) := by
  have alone : ∀ (start : Option UInt64) (order : HashOrder) (events : List Event),
      stampsFor key ((idle start).handed order events) =
        ((⟨key, {}, []⟩ : Handling).live (history ((idle start).base events) key
          (events.filter (fun event => event.thread = key)))).finish.writes.flatMap
            Write.stamps := by
    intro start order events
    rw [stampsFor, handed_own, getThread_idle, history_own]
  constructor
  · rw [alone, alone, sameBase, sameHistories key]
  · have kept : (idle (some ((idle start).base events))).base
        (events.filter (fun event => event.thread = key)) = (idle start).base events := rfl
    rw [alone, alone, kept, List.filter_filter]
    simp only [Bool.and_self]

/-- Two calls of one thread around or before a return of another. -/
theorem threads_isolated_swapped :
    let call (timeNs : UInt64) : Event :=
      .ok { pid := 1, tid := 1, timeNs, data := .branch { kind := some .call } }
    let ret : Event := .ok { pid := 1, tid := 2, timeNs := 6, data := .branch { kind := some .return } }
    let around := (idle none).handed .listed [call 5, ret, call 7]
    let before := (idle none).handed .listed [call 5, call 7, ret]
    let alone := (idle (some 5)).handed .listed [call 5, call 7]
    stampsFor ⟨1, 1⟩ around = stampsFor ⟨1, 1⟩ before ∧
      stampsFor ⟨1, 1⟩ around = stampsFor ⟨1, 1⟩ alone := by
  intro call ret around before alone
  refine threads_isolated none none [call 5, ret, call 7] [call 5, call 7, ret] rfl ?_ .listed
    .listed ⟨1, 1⟩
  intro key
  by_cases caller : (⟨1, 1⟩ : ThreadKey) = key
  · subst caller
    rfl
  · have foreign : ∀ timeNs, ¬ (call timeNs).thread = key := fun _ => caller
    simp [List.filter_cons, foreign]

end Tracker

end Tracey
