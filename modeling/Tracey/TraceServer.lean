import Tracey.HeaderLines

/-!
# The server of the trace

`trace_server.cpp`. A client's request arrives in one piece or not at all, and
is answered by sending a header and a body. How many bytes the system takes of
each attempt to send is an argument; an attempt that fails ends the sending of
the header or of the body. So are the page that is shown to whoever does not ask
for the trace, and the clients that come before the user interrupts the server.

A client that reads a response up to the length that its header announces reads
the trace, or the response is not complete yet.
-/

namespace Tracey

open Numerals TextSearch

/-- The connection to a client: what the request brings, nothing if there is
none, what the system answers to each attempt to send, how many there have been,
and what the client has received. -/
structure Connection where
  request : Text
  answer : Nat → Int
  attempts : Nat := 0
  received : Text := []
  closed : Bool := false

namespace Connection

/-- Attempt to send; the system may take a part of the data. A negative answer
is an error, and takes nothing. -/
def send (c : Connection) (data : Text) : Connection × Int :=
  let n := c.answer c.attempts
  ({ c with attempts := c.attempts + 1, received := c.received ++ data.take n.toNat }, n)

/-- Close the connection. What has been received stays received. -/
def close (c : Connection) : Connection := { c with closed := true }

end Connection

namespace TraceServer

/-- How the loop of the server goes on: a second without a client, or a client.
Clients are served one after the other. -/
inductive Turn where
  | idle
  | client (c : Connection)

end TraceServer

namespace Connection

/-- The attempts from one state to another have succeeded. Each has taken a byte
at least. -/
def Prospers (c after : Connection) : Prop :=
  ∀ attempt, c.attempts ≤ attempt → attempt < after.attempts → 0 < c.answer attempt

/-- Once an attempt fails, so does each later one: the client is gone. A client
does not come back. -/
def Final (c : Connection) : Prop :=
  ∀ first later, first ≤ later → c.answer first ≤ 0 → c.answer later ≤ 0

/-- What sending data does to a connection: it hands over a part from the front,
the whole of it if and only if no attempt fails, and something only if the first
attempt succeeds. -/
structure Sends (c after : Connection) (data sent : Text) : Prop where
  answer : after.answer = c.answer
  later : c.attempts ≤ after.attempts
  front : sent <+: data
  received : after.received = c.received ++ sent
  whole : sent = data ↔ c.Prospers after
  first : sent ≠ [] → 0 < c.answer c.attempts

/-- Nothing is sent where there is nothing to send. No attempt is made. -/
theorem Sends.refl (c : Connection) : Sends c c [] [] where
  answer := rfl
  later := Nat.le_refl _
  front := List.nil_prefix
  received := (List.append_nil _).symm
  whole := ⟨fun _ _ before after => absurd after (Nat.not_lt.mpr before), fun _ => rfl⟩
  first := fun nonempty => absurd rfl nonempty

/-- A failed attempt hands over nothing. The loop ends with it. -/
theorem Sends.failed {c : Connection} {data : Text} (nonempty : data ≠ [])
    (failed : c.answer c.attempts ≤ 0) : Sends c (c.send data).1 data [] where
  answer := rfl
  later := Nat.le_succ _
  front := List.nil_prefix
  received := by rw [send, Int.toNat_of_nonpos failed, List.take_zero]
  whole :=
    ⟨fun whole => absurd whole.symm nonempty, fun prospers =>
      absurd (prospers c.attempts (Nat.le_refl _) (Nat.lt_succ_self _)) (Int.not_lt.mpr failed)⟩
  first := fun nonempty => absurd rfl nonempty

/-- An attempt that does not fail, and what is sent behind it. The part that it
took is in front. -/
theorem Sends.step {c after : Connection} {data sent : Text} (took : 0 < c.answer c.attempts)
    (rest : Sends (c.send data).1 after (data.drop (c.answer c.attempts).toNat) sent) :
    Sends c after data (data.take (c.answer c.attempts).toNat ++ sent) where
  answer := rest.answer
  later := Nat.le_of_succ_le rest.later
  front := by
    have joined := (List.prefix_append_right_inj
      (data.take (c.answer c.attempts).toNat)).mpr rest.front
    rwa [List.take_append_drop] at joined
  received := by rw [rest.received, send, List.append_assoc]
  whole := by
    have behind : data.take (c.answer c.attempts).toNat ++ sent = data ↔
        sent = data.drop (c.answer c.attempts).toNat := by
      have cut := List.take_append_drop (c.answer c.attempts).toNat data
      constructor
      · intro same
        exact List.append_cancel_left (same.trans cut.symm)
      · intro same
        rw [same, cut]
    rw [behind, rest.whole]
    constructor
    · intro prospers attempt since below
      rcases Nat.eq_or_lt_of_le since with same | behind
      · rw [← same]
        exact took
      · exact prospers attempt behind below
    · intro prospers attempt since below
      exact prospers attempt (Nat.le_of_succ_le since) below
  first := fun _ => took

/-- A client that is gone before it has got all of the first data gets nothing
of the second. The attempt that failed is followed by failures only. -/
theorem Sends.gone {c middle after : Connection} {data part more sent : Text}
    (first : Sends c middle data part) (second : Sends middle after more sent) (final : c.Final)
    (cut : part ≠ data) : sent = [] := by
  by_contra nonempty
  have still := second.first nonempty
  rw [first.answer] at still
  apply cut
  rw [first.whole]
  intro attempt since below
  by_contra failed
  exact absurd still (Int.not_lt.mpr (final attempt _ (Nat.le_of_lt below) (Int.not_lt.mp failed)))

end Connection

namespace TraceServer

/-! What a client reads. -/

/-- The lines of the header before the one with the length. They are the status
and the type. -/
def typeLines (contentType : Text) : Text :=
  text "HTTP/1.1 200 OK\r\n" ++ (text "Content-Type: " ++ contentType ++ text "\r\n")

/-- The header up to the length it announces. The digits of the length come
next. -/
def announcement (contentType : Text) : Text := typeLines contentType ++ text "Content-Length: "

/-- A content type that does not disturb the header: it holds no empty line and
announces no length. -/
structure Quiet (contentType : Text) : Prop where
  length : ¬ text "Content-Length: " <:+: typeLines contentType
  line : ¬ text "\r\n\r\n" <:+: announcement contentType

end TraceServer

end Tracey
