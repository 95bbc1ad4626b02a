import Tracey.PerfEvent

/-!
# The sink for compressed output

`ZstdSink` of `compressed_sink.cpp`. Writing and closing drive the same two
partners in a loop: in each turn the compressor fails or produces some output,
and the file takes all of it or only a part. The turns that a call meets are a
list, which is used up when the call ends; no other list is one that the call
can meet.

Writing reports a failure of either partner. Closing reports none: its loop ends
when the compressor fails, and it does not look at what the file takes.
-/

namespace Tracey

namespace ZstdSink

/-- What a call of `ZSTD_compressStream2` does: it fails, or it consumes a part
of its input, produces some output and says how much remains. -/
inductive Compression where
  | failed
  | made (consumed : Nat) (output : Text) (remaining : Nat)
deriving DecidableEq, Repr

/-- One turn of a loop: what the compressor does, and how many bytes the file
takes then. -/
structure Turn where
  compression : Compression
  taken : Nat
deriving DecidableEq, Repr

/-- How a call ends. A write throws at the first failure; closing never does. -/
inductive Ending where
  | returned
  | threw
deriving DecidableEq, Repr

end ZstdSink

/-- The sink with what its file holds. Nothing but the statements about it reads
what the compressor has produced and whether it has completed its frame. -/
structure ZstdSink where
  ctx : Bool := true
  file : Bool := true
  contents : Text := []
  produced : Text := []
  complete : Bool := false
deriving DecidableEq, Repr

namespace ZstdSink

/-- The result of a call that ends here, if no turns are left. A call cannot end
before its turns are used up. -/
def ends {α : Type} (result : α) (turns : List Turn) : Option α :=
  if turns = [] then some result else none

/-- The compressor has produced some output. This is where the output is before
the file gets it. -/
def produce (s : ZstdSink) (output : Text) : ZstdSink := { s with produced := s.produced ++ output }

/-- `fwrite`: the file takes some bytes, and says how many. It takes no more
than it is given. -/
def fwrite (s : ZstdSink) (output : Text) (taken : Nat) : ZstdSink × Nat :=
  ({ s with contents := s.contents ++ output.take taken }, (output.take taken).length)

/-- The loop of `write`, with a turn for each round that it takes: the
compressor takes some of the input and may produce output, which is written at
once. A failure of the compressor and a short write both throw. There is no
result if the turns do not fit the loop. -/
def writeLoop (s : ZstdSink) (input : Text) : List Turn → Option (ZstdSink × Ending)
  | [] => if input = [] then some (s, .returned) else none
  | turn :: rest =>
    if input = [] then none
    else
      match turn.compression with
      | .failed => ends (s, .threw) rest
      | .made consumed output _ =>
        let s := s.produce output
        if output.length > 0 then
          let (s, written) := s.fwrite output turn.taken
          if written ≠ output.length then ends (s, .threw) rest
          else writeLoop s (input.drop consumed) rest
        else writeLoop s (input.drop consumed) rest

/-- Write data. A sink that has been closed takes nothing and reports nothing.
Otherwise the loop goes on until all data has been consumed. -/
def write (s : ZstdSink) (data : Text) (turns : List Turn) : Option (ZstdSink × Ending) :=
  if !s.ctx || !s.file then ends (s, .returned) turns else s.writeLoop data turns

/-- The loop of `close`, until the compressor has nothing left to produce.
Unlike in `write`, neither a failure of the compressor nor a short write is
reported. -/
def closeLoop (s : ZstdSink) : List Turn → Option ZstdSink
  | [] => none
  | turn :: rest =>
    match turn.compression with
    | .failed => ends s rest -- The frame stays incomplete, and nothing is reported.
    | .made _ output remaining =>
      let s := s.produce output
      -- What the file takes is not looked at here.
      let s := if output.length > 0 then (s.fwrite output turn.taken).1 else s
      if remaining > 0 then closeLoop s rest else ends { s with complete := true } rest

/-- Close the sink: complete the frame, and let go of the compressor and of the
file in any case. -/
def close (s : ZstdSink) (turns : List Turn) : Option ZstdSink :=
  (if s.ctx && s.file then s.closeLoop turns else ends s turns).map
    (fun s => { s with ctx := false, file := false })

/-- Writes in a row, up to the first that throws. What follows the one that
throws is not written. -/
def writeAll (s : ZstdSink) : List (Text × List Turn) → Option (ZstdSink × Ending)
  | [] => some (s, .returned)
  | (data, turns) :: rest =>
    match s.write data turns with
    | some (s, .returned) => writeAll s rest
    | other => other

/-- Writes to a new sink, and its closing. A session in which a write throws is
not closed. -/
def session (writes : List (Text × List Turn)) (closing : List Turn) :
    Option (ZstdSink × Ending) :=
  match ({} : ZstdSink).writeAll writes with
  | some (s, .returned) => (s.close closing).map (fun s => (s, .returned))
  | other => other

/-- All that the compressor has produced is in the file, and its frame is
complete. -/
def Whole (s : ZstdSink) : Prop := s.contents = s.produced ∧ s.complete = true

/-- Whether the file is whole can be computed. -/
instance (s : ZstdSink) : Decidable s.Whole := inferInstanceAs (Decidable (_ ∧ _))

namespace Turn

/-- What the compressor produces in a turn. A failed turn produces nothing. -/
def output (t : Turn) : Text :=
  match t.compression with
  | .failed => []
  | .made _ output _ => output

/-- What the file takes. It may be less than what is produced. -/
def delivered (t : Turn) : Text := t.output.take t.taken

/-- Neither partner fails. The file takes all that is produced. -/
def Clean (t : Turn) : Prop := t.compression ≠ .failed ∧ t.output.length ≤ t.taken

/-- Whether a turn is clean can be computed. -/
instance (t : Turn) : Decidable t.Clean := inferInstanceAs (Decidable (_ ∧ _))

end Turn

/-- The file and the compressor after some turns. Only what is delivered is in
the file. -/
def after (s : ZstdSink) (turns : List Turn) : ZstdSink :=
  { s with
    contents := s.contents ++ turns.flatMap Turn.delivered
    produced := s.produced ++ turns.flatMap Turn.output }

/-- Without a turn nothing is written. -/
theorem after_nil (s : ZstdSink) : s.after [] = s := by
  simp [after]

/-- The first turn is written first. -/
theorem after_cons (s : ZstdSink) (t : Turn) (rest : List Turn) :
    s.after (t :: rest) = (s.after [t]).after rest := by
  simp [after]

/-- A call that ends has used all of its turns. More turns than it takes are no
run of it. -/
theorem ends_some {α : Type} {result r : α} {turns : List Turn} (met : ends result turns = some r) :
    turns = [] ∧ r = result := by
  unfold ends at met
  split at met
  · next finished => exact ⟨finished, (Option.some.inj met).symm⟩
  · cases met

/-! One turn. -/

/-- A turn of a write in which no partner fails goes on with the rest of the
input. -/
theorem writeLoop_clean {s : ZstdSink} {input : Text} {t : Turn} {rest : List Turn}
    {r : ZstdSink × Ending} (clean : t.Clean) (met : s.writeLoop input (t :: rest) = some r) :
    ∃ left, (s.after [t]).writeLoop left rest = some r := by
  obtain ⟨compression, taken⟩ := t
  rw [writeLoop] at met
  split at met
  · cases met
  cases compression with
  | failed => exact absurd rfl clean.1
  | made consumed output remaining =>
    refine ⟨input.drop consumed, ?_⟩
    have all : output.take taken = output := List.take_of_length_le clean.2
    have same : s.after [⟨.made consumed output remaining, taken⟩] =
        { s with contents := s.contents ++ output, produced := s.produced ++ output } := by
      simp [after, Turn.delivered, Turn.output, all]
    rw [same]
    dsimp only at met
    split at met
    · simpa [fwrite, produce, all] using met
    · next silent =>
      have empty : output = [] := List.length_eq_zero_iff.mp (by omega)
      rw [empty] at met ⊢
      simpa [produce] using met

/-- A turn of a write in which a partner fails throws. What the file has taken
in it stays there. -/
theorem writeLoop_unclean {s : ZstdSink} {input : Text} {t : Turn} {rest : List Turn}
    {r : ZstdSink × Ending} (unclean : ¬ t.Clean) (met : s.writeLoop input (t :: rest) = some r) :
    r.2 = .threw := by
  obtain ⟨compression, taken⟩ := t
  rw [writeLoop] at met
  split at met
  · cases met
  cases compression with
  | failed => rw [(ends_some met).2]
  | made consumed output remaining =>
    have short : taken < output.length := by
      by_contra enough
      exact unclean ⟨fun same => Compression.noConfusion same, Nat.le_of_not_lt enough⟩
    have produced : output.length > 0 := by omega
    have less : (output.take taken).length ≠ output.length := by
      rw [List.length_take]
      omega
    dsimp only [fwrite] at met
    rw [if_pos produced, if_pos less] at met
    rw [(ends_some met).2]

/-- A turn of the closing loop ends it at a failure of the compressor and at the
end of the frame, whatever the file takes. -/
theorem closeLoop_turn {s s' : ZstdSink} {t : Turn} {rest : List Turn}
    (met : s.closeLoop (t :: rest) = some s') :
    (t.compression = .failed ∧ rest = [] ∧ s' = s) ∨
      (t.compression ≠ .failed ∧ ((s.after [t]).closeLoop rest = some s' ∨
        (rest = [] ∧ s' = { s.after [t] with complete := true }))) := by
  obtain ⟨compression, taken⟩ := t
  rw [closeLoop] at met
  cases compression with
  | failed =>
    obtain ⟨finished, same⟩ := ends_some met
    exact .inl ⟨rfl, finished, same⟩
  | made consumed output remaining =>
    refine .inr ⟨fun same => Compression.noConfusion same, ?_⟩
    have written : (if output.length > 0 then ((s.produce output).fwrite output taken).1
        else s.produce output) = s.after [⟨.made consumed output remaining, taken⟩] := by
      split
      · simp [after, fwrite, produce, Turn.delivered, Turn.output]
      · next silent =>
        have empty : output = [] := List.length_eq_zero_iff.mp (by omega)
        simp [after, produce, Turn.delivered, Turn.output, empty]
    dsimp only at met
    rw [written] at met
    split at met
    · exact .inl met
    · exact .inr (ends_some met)

/-! Whole calls. -/

/-- A write returns if no partner fails in any turn, and else throws. The two
cases exclude each other. -/
theorem writeLoop_met {s : ZstdSink} {input : Text} {turns : List Turn} {r : ZstdSink × Ending}
    (met : s.writeLoop input turns = some r) :
    ((∀ t ∈ turns, t.Clean) ∧ r = (s.after turns, .returned)) ∨
      ((∃ t ∈ turns, ¬ t.Clean) ∧ r.2 = .threw) := by
  induction turns generalizing s input with
  | nil =>
    rw [writeLoop] at met
    split at met
    · rw [after_nil, ← Option.some.inj met]
      exact .inl ⟨fun t member => absurd member List.not_mem_nil, rfl⟩
    · cases met
  | cons t rest inductionHypothesis =>
    by_cases clean : t.Clean
    · obtain ⟨left, later⟩ := writeLoop_clean clean met
      rcases inductionHypothesis later with ⟨all, returned⟩ | ⟨⟨u, member, unclean⟩, threw⟩
      · rw [after_cons]
        exact .inl ⟨List.forall_mem_cons.mpr ⟨clean, all⟩, returned⟩
      · exact .inr ⟨⟨u, List.mem_cons_of_mem t member, unclean⟩, threw⟩
    · exact .inr ⟨⟨t, List.mem_cons_self, clean⟩, writeLoop_unclean clean met⟩

/-- The closing loop passes on what the file takes, and completes the frame if
the compressor does not fail. -/
theorem closeLoop_met {s s' : ZstdSink} {turns : List Turn}
    (met : s.closeLoop turns = some s') :
    s'.contents = (s.after turns).contents ∧ s'.produced = (s.after turns).produced ∧
      (s'.complete = true ↔ s.complete = true ∨ ∀ t ∈ turns, t.compression ≠ .failed) := by
  induction turns generalizing s with
  | nil => cases met
  | cons t rest inductionHypothesis =>
    rcases closeLoop_turn met with ⟨failed, rfl, rfl⟩ | ⟨made, later | ⟨rfl, rfl⟩⟩
    · have nothing : t.output = [] := by rw [Turn.output, failed]
      simp [after, Turn.delivered, nothing, failed]
    · obtain ⟨contents, produced, complete⟩ := inductionHypothesis later
      rw [after_cons]
      refine ⟨contents, produced, complete.trans ?_⟩
      simp [after, made]
    · exact ⟨rfl, rfl, by simp [made]⟩

/-- No more is taken than is produced. So a file is never longer than the frame. -/
theorem length_delivered_le (turns : List Turn) :
    (turns.flatMap Turn.delivered).length ≤ (turns.flatMap Turn.output).length := by
  induction turns with
  | nil => exact Nat.le_refl 0
  | cons t rest inductionHypothesis =>
    have part : t.delivered.length ≤ t.output.length := (List.take_sublist _ _).length_le
    rw [List.flatMap_cons, List.flatMap_cons, List.length_append, List.length_append]
    exact Nat.add_le_add part inductionHypothesis

/-- All that is produced is taken exactly if the file takes all of it in every
turn: what is missing once is never made up for. -/
theorem delivered_whole (turns : List Turn) :
    turns.flatMap Turn.delivered = turns.flatMap Turn.output ↔
      ∀ t ∈ turns, t.output.length ≤ t.taken := by
  induction turns with
  | nil => simp
  | cons t rest inductionHypothesis =>
    rw [List.flatMap_cons, List.flatMap_cons, List.forall_mem_cons, ← inductionHypothesis]
    constructor
    · intro same
      have bound := length_delivered_le rest
      have total := congrArg List.length same
      rw [List.length_append, List.length_append] at total
      have part : t.delivered.length = min t.taken t.output.length := List.length_take
      exact ⟨by omega, (List.append_inj same (by omega)).2⟩
    · rintro ⟨enough, same⟩
      have all : t.delivered = t.output := List.take_of_length_le enough
      rw [all, same]

/-- A sink that is open and has passed on everything so far. Its frame is not
complete before it is closed. -/
structure Sound (s : ZstdSink) : Prop where
  ctx : s.ctx = true
  file : s.file = true
  passed : s.contents = s.produced
  unfinished : s.complete = false

/-- Writes that return leave the sink so, and no partner has failed in them. A
write that throws leaves the session without an end. -/
theorem writeAll_met {s : ZstdSink} (sound : Sound s) {writes : List (Text × List Turn)}
    {r : ZstdSink × Ending} (met : s.writeAll writes = some r) :
    ((∀ call ∈ writes, ∀ t ∈ call.2, t.Clean) ∧ r.2 = .returned ∧ Sound r.1) ∨
      ((∃ call ∈ writes, ∃ t ∈ call.2, ¬ t.Clean) ∧ r.2 = .threw) := by
  induction writes generalizing s with
  | nil =>
    rw [← Option.some.inj met]
    exact .inl ⟨fun call member => absurd member List.not_mem_nil, rfl, sound⟩
  | cons call rest inductionHypothesis =>
    obtain ⟨data, turns⟩ := call
    have opened : s.write data turns = s.writeLoop data turns := by
      rw [write, sound.ctx, sound.file]
      rfl
    rw [writeAll, opened] at met
    cases first : s.writeLoop data turns with
    | none =>
      rw [first] at met
      cases met
    | some q =>
      rw [first] at met
      rcases writeLoop_met first with ⟨clean, rfl⟩ | ⟨⟨t, member, unclean⟩, threw⟩
      · have same : turns.flatMap Turn.delivered = turns.flatMap Turn.output :=
          (delivered_whole turns).mpr (fun t member => (clean t member).2)
        have next : Sound (s.after turns) :=
          { ctx := sound.ctx
            file := sound.file
            passed := congrArg₂ (· ++ ·) sound.passed same
            unfinished := sound.unfinished }
        rcases inductionHypothesis next met with ⟨all, later⟩ | ⟨⟨other, inside, bad⟩, later⟩
        · exact .inl ⟨List.forall_mem_cons.mpr ⟨clean, all⟩, later⟩
        · exact .inr ⟨⟨other, List.mem_cons_of_mem _ inside, bad⟩, later⟩
      · obtain ⟨s', ending⟩ := q
        obtain rfl : ending = .threw := threw
        rw [← Option.some.inj met]
        exact .inr ⟨⟨_, List.mem_cons_self, t, member, unclean⟩, rfl⟩

/-- Closing such a sink leaves everything in the file exactly if no partner
fails in any turn. -/
theorem close_whole_iff {s s' : ZstdSink} (sound : Sound s) {closing : List Turn}
    (met : s.close closing = some s') : Whole s' ↔ ∀ t ∈ closing, t.Clean := by
  rw [close, sound.ctx, sound.file] at met
  obtain ⟨looped, closed, rfl⟩ := Option.map_eq_some_iff.mp met
  obtain ⟨contents, produced, complete⟩ := closeLoop_met closed
  have taken : looped.contents = looped.produced ↔ ∀ t ∈ closing, t.output.length ≤ t.taken := by
    rw [contents, produced, ← delivered_whole, after, sound.passed]
    exact List.append_right_inj _
  have finished : looped.complete = true ↔ ∀ t ∈ closing, t.compression ≠ .failed := by
    rw [complete, sound.unfinished]
    simp
  have parts : (∀ t ∈ closing, t.Clean) ↔
      looped.complete = true ∧ looped.contents = looped.produced := by
    rw [taken, finished, ← forall₂_and]
    rfl
  exact and_comm.trans parts.symm

/-- If no call throws, then everything is in the file: exactly if a partner
fails in some write, which throws, or in no turn of the closing loop. -/
theorem session_whole_iff {writes : List (Text × List Turn)} {closing : List Turn}
    {r : ZstdSink × Ending} (met : session writes closing = some r) :
    (r.2 = .returned → Whole r.1) ↔
      (∃ call ∈ writes, ∃ t ∈ call.2, ¬ t.Clean) ∨ ∀ t ∈ closing, t.Clean := by
  have fresh : Sound {} := ⟨rfl, rfl, rfl, rfl⟩
  rw [session] at met
  cases written : ({} : ZstdSink).writeAll writes with
  | none =>
    rw [written] at met
    cases met
  | some q =>
    rw [written] at met
    obtain ⟨s, ending⟩ := q
    rcases writeAll_met fresh written with ⟨clean, returned, sound⟩ | ⟨unclean, threw⟩
    · obtain rfl : ending = .returned := returned
      obtain ⟨s', closed, rfl⟩ := Option.map_eq_some_iff.mp met
      have whole := close_whole_iff sound closed
      have writesClean : ¬ ∃ call ∈ writes, ∃ t ∈ call.2, ¬ t.Clean := by
        rintro ⟨call, member, t, inside, unclean⟩
        exact unclean (clean call member t inside)
      constructor
      · exact fun all => .inr (whole.mp (all rfl))
      · exact fun either _ => whole.mpr (either.resolve_left writesClean)
    · obtain rfl : ending = .threw := threw
      rw [← Option.some.inj met]
      exact iff_of_true (fun returned => Ending.noConfusion returned) (.inl unclean)

/-- The frame for three bytes. -/
def smallFrame : Text :=
  [0x28, 0xB5, 0x2F, 0xFD, 0x00, 0x58, 0x19, 0x00, 0x00, byte 'f', byte 'x', byte 't']

/-- The compressor keeps a small trace until the end, and by then the disk is
full. -/
theorem session_not_whole :
    ∃ s, session [(text "fxt", [⟨.made 3 [] 0, 0⟩])] [⟨.made 0 smallFrame 0, 0⟩] =
      some (s, .returned) ∧ ¬ Whole s :=
  ⟨_, rfl, by decide⟩

/-- The same trace on a disk with room. Every byte of the frame is taken. -/
theorem session_whole_room :
    ∃ s, session [(text "fxt", [⟨.made 3 [] 0, 0⟩])] [⟨.made 0 smallFrame 0, 12⟩] =
      some (s, .returned) ∧ Whole s := by
  obtain ⟨s, met⟩ : ∃ s, session [(text "fxt", [⟨.made 3 [] 0, 0⟩])]
      [⟨.made 0 smallFrame 0, 12⟩] = some (s, .returned) := ⟨_, rfl⟩
  exact ⟨s, met, (session_whole_iff met).mpr (.inr (by decide)) rfl⟩

end ZstdSink

end Tracey
