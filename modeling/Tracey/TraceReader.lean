import Tracey.FxtWriter

/-!
# A reader of the trace

A reader keeps the string and the thread last recorded for each id and slot, a
later record replacing an earlier one, and resolves the references of every
event and kernel object when it meets it. It reads stored records, so an
overlong string appears cut.

What a writer emits after some point is seen from the tables the reader has at
that point. Seeing a concatenation splits at the joint, which is how the effect
of several calls is put together from the effects of each.
-/

namespace Tracey

/-- The tables of a reader part way through a trace. -/
structure Reader where
  strings : UInt16 → Option Text := fun _ => none
  threads : UInt8 → Option ThreadId := fun _ => none

/-- An event or kernel object as a reader understands it. -/
inductive Seen where
  | event (eventType : UInt8) (thread : Option ThreadId) (category name : Option Text)
      (categoryRef nameRef : UInt16) (timestamp : UInt64)
  | processObject (name : Option Text) (pid : UInt64)
  | threadObject (name : Option Text) (tid : UInt64) (argName : Option Text) (pid : UInt64)
deriving DecidableEq

namespace Reader

/-- Take note of one record. -/
def read (r : Reader) : Record → Reader
  | .string id value => { r with strings := Function.update r.strings id (some value) }
  | .thread slot pid tid => { r with threads := Function.update r.threads slot (some ⟨pid, tid⟩) }
  | _ => r

/-- The reader's tables after some records. -/
def replay (r : Reader) (records : List Record) : Reader := records.foldl read r

/-- The string a reference stands for; the reference 0 is the empty string. -/
def resolve (r : Reader) (ref : UInt16) : Option Text := if ref = 0 then some [] else r.strings ref

/-- What one record shows, at its position. -/
def see (r : Reader) : Record → List Seen
  | .event eventType threadRef categoryRef nameRef timestamp =>
    [.event eventType (r.threads threadRef) (r.resolve categoryRef) (r.resolve nameRef)
      categoryRef nameRef timestamp]
  | .processObject nameRef pid => [.processObject (r.resolve nameRef) pid]
  | .threadObject nameRef tid processRef pid =>
    [.threadObject (r.resolve nameRef) tid (r.resolve processRef) pid]
  | _ => []

/-- Everything a list of records shows, each record at its position. -/
def watch (r : Reader) : List Record → List Seen
  | [] => []
  | record :: rest => r.see record ++ (r.read record).watch rest

@[simp] theorem replay_nil (r : Reader) : r.replay [] = r := rfl

@[simp] theorem replay_cons (r : Reader) (record : Record) (rest : List Record) :
    r.replay (record :: rest) = (r.read record).replay rest := rfl

theorem replay_append (r : Reader) (before after : List Record) :
    r.replay (before ++ after) = (r.replay before).replay after := List.foldl_append

@[simp] theorem watch_nil (r : Reader) : r.watch [] = [] := rfl

@[simp] theorem watch_cons (r : Reader) (record : Record) (rest : List Record) :
    r.watch (record :: rest) = r.see record ++ (r.read record).watch rest := rfl

theorem watch_append (r : Reader) (before after : List Record) :
    r.watch (before ++ after) = r.watch before ++ (r.replay before).watch after := by
  induction before generalizing r with
  | nil => rfl
  | cons record rest inductionHypothesis => simp [inductionHypothesis, List.append_assoc]

@[simp] theorem resolve_zero (r : Reader) : r.resolve 0 = some [] := rfl

/-- A nonzero reference is looked up in the string table. -/
theorem resolve_nonzero (r : Reader) (ref : UInt16) (nonzero : ref ≠ 0) :
    r.resolve ref = r.strings ref := if_neg nonzero

end Reader

namespace FxtWriter

/-- The tables of a reader that has read everything written so far. -/
def reader (w : FxtWriter) : Reader := ({} : Reader).replay (w.records.map Record.stored)

/-- The records a later state has written beyond an earlier one. -/
def recordsSince (earlier later : FxtWriter) : List Record :=
  later.records.drop earlier.records.length

/-- What those records show to a reader of the whole trace. -/
def seenSince (earlier later : FxtWriter) : List Seen :=
  earlier.reader.watch ((recordsSince earlier later).map Record.stored)

/-- The writer only appends: a later state has written these further records. -/
def Extends (earlier later : FxtWriter) (news : List Record) : Prop :=
  later.records = earlier.records ++ news

variable {w first second third : FxtWriter} {news more : List Record}

theorem Extends.refl (w : FxtWriter) : Extends w w [] := (List.append_nil _).symm

theorem Extends.trans (begun : Extends first second news) (continued : Extends second third more) :
    Extends first third (news ++ more) := by
  rw [Extends] at begun continued ⊢
  rw [continued, begun, List.append_assoc]

theorem Extends.recordsSince (grown : Extends first second news) :
    recordsSince first second = news := by
  rw [FxtWriter.recordsSince, grown, List.drop_left]

theorem Extends.reader (grown : Extends first second news) :
    second.reader = first.reader.replay (news.map Record.stored) := by
  rw [FxtWriter.reader, grown, List.map_append, Reader.replay_append]
  rfl

theorem Extends.seenSince (grown : Extends first second news) :
    seenSince first second = first.reader.watch (news.map Record.stored) := by
  rw [FxtWriter.seenSince, grown.recordsSince]

/-- Consecutive stretches of the trace are seen one after the other. -/
theorem seenSince_trans (begun : Extends first second news)
    (continued : Extends second third more) :
    seenSince first third = seenSince first second ++ seenSince second third := by
  rw [(begun.trans continued).seenSince, begun.seenSince, continued.seenSince, List.map_append,
    Reader.watch_append, ← begun.reader]

@[simp] theorem seenSince_self (w : FxtWriter) : seenSince w w = [] :=
  (Extends.refl w).seenSince

theorem emit_extends (w : FxtWriter) (record : Record) : Extends w (w.emit record) [record] := rfl

theorem emit_reader (w : FxtWriter) (record : Record) :
    (w.emit record).reader = w.reader.read record.stored := (emit_extends w record).reader

theorem emit_seen (w : FxtWriter) (record : Record) :
    seenSince w (w.emit record) = w.reader.see record.stored := by
  rw [(emit_extends w record).seenSince]
  simp

end FxtWriter

end Tracey
