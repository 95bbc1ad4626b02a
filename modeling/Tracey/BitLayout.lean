import Mathlib

/-!
# Bit-packed fields and streams of self-sized records

A layout is a list of field widths, least significant field first. Packing puts
each field directly above the one before it and reduces a value modulo its
width; unpacking cuts the number at the same places, so it returns the values
exactly when each fits its width. A packed number is stored in little-endian
bytes.

A stream of records whose size can be read off their first bytes is walked
record by record. When every record announces its own length, whatever follows
it, the walk cuts a concatenation exactly where the records were joined and ends
exactly at its end.
-/

namespace Tracey.BitLayout

/-- The fields of a message with their widths, least significant first. A
message is a list because its fields are packed in this order, and may have any
widths. -/
abbrev Message := List (Nat × Nat)

/-- The widths alone. -/
def layout (message : Message) : List Nat := message.map Prod.fst

/-- Pack the fields contiguously; a value is reduced to its width. The first
field is the least significant one. -/
def pack : Message → Nat
  | [] => 0
  | (width, value) :: rest => value % 2 ^ width + 2 ^ width * pack rest

/-- Cut a number at the given widths. What is above the last of them is dropped. -/
def unpack : List Nat → Nat → List Nat
  | [], _ => []
  | width :: rest, number => number % 2 ^ width :: unpack rest (number / 2 ^ width)

/-- No value exceeds its field. Such a message can be read back; another one
loses its high bits. -/
def Fits (message : Message) : Prop := ∀ field ∈ message, field.2 < 2 ^ field.1

/-- Whether a message fits can be computed, field by field. -/
instance (message : Message) : Decidable (Fits message) :=
  inferInstanceAs (Decidable (∀ field ∈ message, field.2 < 2 ^ field.1))

/-- A packed message occupies no bit above its layout. Bits never spill out of a
field, since each is reduced. -/
theorem pack_bound (message : Message) : pack message < 2 ^ (layout message).sum := by
  induction message with
  | nil => simp [pack, layout]
  | cons field rest inductionHypothesis =>
    obtain ⟨width, value⟩ := field
    have low : value % 2 ^ width < 2 ^ width := Nat.mod_lt _ (Nat.two_pow_pos width)
    have high : pack rest + 1 ≤ 2 ^ (layout rest).sum := inductionHypothesis
    calc value % 2 ^ width + 2 ^ width * pack rest
        < 2 ^ width * (pack rest + 1) := by rw [Nat.mul_add, Nat.mul_one]; omega
      _ ≤ 2 ^ width * 2 ^ (layout rest).sum := Nat.mul_le_mul_left _ high
      _ = 2 ^ (layout ((width, value) :: rest)).sum := by simp [layout, Nat.pow_add]

/-- Values that fit their widths are read back unchanged. Both sides only have
to agree on the widths. -/
theorem unpack_pack (message : Message) (fits : Fits message) :
    unpack (layout message) (pack message) = message.map Prod.snd := by
  induction message with
  | nil => rfl
  | cons field rest inductionHypothesis =>
    obtain ⟨width, value⟩ := field
    have small : value < 2 ^ width := fits (width, value) List.mem_cons_self
    have restFits : Fits rest := fun other member => fits other (List.mem_cons_of_mem _ member)
    have positive : 0 < 2 ^ width := Nat.two_pow_pos width
    have low : (value + 2 ^ width * pack rest) % 2 ^ width = value := by
      rw [Nat.add_mul_mod_self_left, Nat.mod_eq_of_lt small]
    have high : (value + 2 ^ width * pack rest) / 2 ^ width = pack rest := by
      rw [Nat.add_mul_div_left _ _ positive, Nat.div_eq_of_lt small, Nat.zero_add]
    simp only [layout, List.map_cons, unpack, pack, Nat.mod_eq_of_lt small, low, high]
    rw [← inductionHypothesis restFits, layout]

/-- As many fields are unpacked as the layout has. -/
theorem length_unpack (widths : List Nat) (number : Nat) :
    (unpack widths number).length = widths.length := by
  induction widths generalizing number with
  | nil => rfl
  | cons width rest inductionHypothesis => simp [unpack, inductionHypothesis]

/-- Cutting at a longer layout cuts the shorter one first. So a common header
can be read before the kind of the message is known. -/
theorem unpack_append (widths more : List Nat) (number : Nat) :
    unpack (widths ++ more) number =
      unpack widths number ++ unpack more (number / 2 ^ widths.sum) := by
  induction widths generalizing number with
  | nil => simp [unpack]
  | cons width rest inductionHypothesis =>
    simp only [List.cons_append, unpack, inductionHypothesis, List.sum_cons, Nat.pow_add,
      Nat.div_div_eq_div_mul]

/-- Bits above a layout do not show in its fields. -/
theorem unpack_mod (widths : List Nat) (number total : Nat) (inside : widths.sum ≤ total) :
    unpack widths (number % 2 ^ total) = unpack widths number := by
  induction widths generalizing number total with
  | nil => rfl
  | cons width rest inductionHypothesis =>
    rw [List.sum_cons] at inside
    obtain ⟨above, rfl⟩ := Nat.exists_eq_add_of_le (Nat.le_of_add_right_le inside)
    have restInside : rest.sum ≤ above := by omega
    simp only [unpack, Nat.pow_add]
    rw [Nat.mod_mul_right_mod, Nat.mod_mul_right_div_self, inductionHypothesis _ _ restInside]

/-- The little-endian bytes of a number, `count` of them. A number that needs
more bytes loses its high ones. -/
def toBytes : Nat → Nat → List UInt8
  | 0, _ => []
  | count + 1, number => UInt8.ofNat (number % 256) :: toBytes count (number / 256)

/-- The number stored in little-endian bytes. The number of bytes is not
bounded. -/
def ofBytes : List UInt8 → Nat
  | [] => 0
  | first :: rest => first.toNat + 256 * ofBytes rest

/-- As many bytes come out as are asked for, whatever the number. -/
@[simp] theorem length_toBytes (count number : Nat) : (toBytes count number).length = count := by
  induction count generalizing number with
  | zero => rfl
  | succ count inductionHypothesis => simp [toBytes, inductionHypothesis]

/-- A number that fits its bytes is read back unchanged. The bound is the exact
one: any larger number would be cut. -/
theorem ofBytes_toBytes (count number : Nat) (bound : number < 256 ^ count) :
    ofBytes (toBytes count number) = number := by
  induction count generalizing number with
  | zero => simp [toBytes, ofBytes]; simp at bound; omega
  | succ count inductionHypothesis =>
    have quotient : number / 256 < 256 ^ count := by
      rw [Nat.pow_succ] at bound
      exact Nat.div_lt_of_lt_mul (by omega)
    simp only [toBytes, ofBytes, inductionHypothesis _ quotient, UInt8.toNat_ofNat']
    omega

/-- Reading a prefix of the bytes keeps the low part of the number. -/
theorem ofBytes_take (bytes : List UInt8) (count : Nat) :
    ofBytes (bytes.take count) = ofBytes bytes % 256 ^ count := by
  induction count generalizing bytes with
  | zero => simp [ofBytes, Nat.mod_one]
  | succ count inductionHypothesis =>
    cases bytes with
    | nil => simp [ofBytes]
    | cons first rest =>
      have small : first.toNat < 256 := first.toNat_lt
      have low : (first.toNat + 256 * ofBytes rest) % 256 = first.toNat := by omega
      have high : (first.toNat + 256 * ofBytes rest) / 256 = ofBytes rest := by omega
      simp only [List.take_succ_cons, ofBytes, inductionHypothesis, Nat.pow_succ]
      rw [Nat.mul_comm (256 ^ count) 256, Nat.mod_mul, low, high]

/-- The bytes of a packed message. A layout occupies whole bytes. -/
def buffer (message : Message) : List UInt8 := toBytes ((layout message).sum / 8) (pack message)

/-- Read the fields of a layout off the front of some bytes. Only as many bytes
are looked at as the layout occupies, and bytes that are missing count as zero. -/
def readFields (widths : List Nat) (bytes : List UInt8) : List Nat :=
  unpack widths (ofBytes (bytes.take (widths.sum / 8)))

/-- A buffer has as many bytes as its layout has bits, divided by eight. -/
@[simp] theorem length_buffer (message : Message) :
    (buffer message).length = (layout message).sum / 8 := length_toBytes _ _

/-- The bytes of a message whose layout fills whole bytes hold its packed
number. -/
theorem ofBytes_buffer (message : Message) (whole : 8 ∣ (layout message).sum) :
    ofBytes (buffer message) = pack message := by
  refine ofBytes_toBytes _ _ ?_
  have bound : pack message < 2 ^ (layout message).sum := pack_bound message
  obtain ⟨count, total⟩ := whole
  rw [total] at bound
  simpa [total, Nat.pow_mul] using bound

/-- A message is read back from its bytes, whatever follows them. What follows
is the next message in a stream. -/
theorem readFields_buffer (message : Message) (rest : List UInt8) (fits : Fits message)
    (whole : 8 ∣ (layout message).sum) :
    readFields (layout message) (buffer message ++ rest) = message.map Prod.snd := by
  have prefixOnly : (buffer message ++ rest).take ((layout message).sum / 8) = buffer message := by
    rw [← length_buffer message, List.take_left]
  rw [readFields, prefixOnly, ofBytes_buffer message whole, unpack_pack message fits]

/-- The leading fields of a message are read back alone. This is how a reader
learns the size of a record from its header. -/
theorem readFields_front (front back : Message) (rest : List UInt8) (fits : Fits (front ++ back))
    (whole : 8 ∣ (layout (front ++ back)).sum) (wholeFront : 8 ∣ (layout front).sum) :
    readFields (layout front) (buffer (front ++ back) ++ rest) = front.map Prod.snd := by
  have total : layout (front ++ back) = layout front ++ layout back := List.map_append
  obtain ⟨frontBytes, frontBits⟩ := wholeFront
  have short : frontBytes ≤ (buffer (front ++ back)).length := by
    rw [length_buffer, total, List.sum_append]
    omega
  have bytes : (layout front).sum / 8 = frontBytes := by omega
  have number : ofBytes ((buffer (front ++ back) ++ rest).take frontBytes) =
      pack (front ++ back) % 2 ^ (layout front).sum := by
    rw [List.take_append_of_le_length short, ofBytes_take, ofBytes_buffer _ whole, frontBits,
      Nat.pow_mul]
  have all : unpack (layout front) (pack (front ++ back)) ++
        unpack (layout back) (pack (front ++ back) / 2 ^ (layout front).sum) =
      front.map Prod.snd ++ back.map Prod.snd := by
    rw [← unpack_append, ← total, unpack_pack _ fits, List.map_append]
  rw [readFields, bytes, number, unpack_mod _ _ _ (Nat.le_refl _)]
  exact (List.append_inj all (by simp [length_unpack, layout])).1

/-- Walk a stream, cutting off one record at a time. A record of size zero or
one that reaches past the end stops the walk without a result. Fuel counts
records. -/
def walk {β : Type*} (size : List β → Nat) : Nat → List β → Option (List (List β))
  | _, [] => some []
  | 0, _ => none
  | fuel + 1, stream =>
    if size stream = 0 ∨ stream.length < size stream then none
    else (walk size fuel (stream.drop (size stream))).map (stream.take (size stream) :: ·)

/-- Records that announce their own length, whatever follows them, are cut apart
exactly, and the walk lands on the end of the stream. -/
theorem walk_flatten {β : Type*} (size : List β → Nat) (records : List (List β)) (fuel : Nat)
    (enough : records.length ≤ fuel)
    (sized : ∀ record ∈ records, record ≠ [] ∧ ∀ rest, size (record ++ rest) = record.length) :
    walk size fuel records.flatten = some records := by
  induction records generalizing fuel with
  | nil => cases fuel <;> rfl
  | cons record rest inductionHypothesis =>
    obtain ⟨nonempty, announced⟩ := sized record List.mem_cons_self
    cases fuel with
    | zero => simp at enough
    | succ fuel =>
      have restWalked : walk size fuel rest.flatten = some rest :=
        inductionHypothesis fuel (by simpa using enough)
          (fun other member => sized other (List.mem_cons_of_mem _ member))
      have positive : 0 < record.length := List.length_pos_iff.mpr nonempty
      have announcedHere : size (record ++ rest.flatten) = record.length := announced rest.flatten
      have inside : ¬ (size (record ++ rest.flatten) = 0 ∨
          (record ++ rest.flatten).length < size (record ++ rest.flatten)) := by
        rw [announcedHere, List.length_append]
        omega
      obtain ⟨first, tail, split⟩ := List.exists_cons_of_ne_nil nonempty
      have unfolded : walk size (fuel + 1) (record ++ rest.flatten) =
          (walk size fuel ((record ++ rest.flatten).drop (size (record ++ rest.flatten)))).map
            ((record ++ rest.flatten).take (size (record ++ rest.flatten)) :: ·) := by
        rw [split] at inside ⊢
        simp only [List.cons_append] at inside ⊢
        rw [walk, if_neg inside]
        all_goals simp
      rw [List.flatten_cons, unfolded, announcedHere, List.drop_left, List.take_left,
        restWalked, Option.map_some]

/-- One turn of the walk: the record at the front announces its size, and the
walk goes on behind it. A size of 0, or one beyond the end, ends the walk
without a result. -/
theorem walk_cons {β : Type*} (size : List β → Nat) (fuel : Nat) {stream : List β}
    (nonempty : stream ≠ []) :
    walk size (fuel + 1) stream =
      if size stream = 0 ∨ stream.length < size stream then none
      else (walk size fuel (stream.drop (size stream))).map (stream.take (size stream) :: ·) := by
  cases stream with
  | nil => exact absurd rfl nonempty
  | cons c more => rfl

/-- The walk ends where the stream does, however much fuel is left. A stream
that is read to its end is read whole. -/
theorem walk_nil {β : Type*} (size : List β → Nat) (fuel : Nat) :
    walk size fuel [] = some [] := by
  cases fuel <;> rfl

/-- A stream that has been cut off is walked only if it is cut between two
records, and then the walk finds the records before the cut. A record that has
been cut off announces more than is left of it. -/
theorem walk_truncated {β : Type*} (size : List β → Nat) (records : List (List β)) (fuel : Nat)
    (sized : ∀ record ∈ records, record ≠ [] ∧ ∀ rest, size (record ++ rest) = record.length)
    (short : ∀ record ∈ records, ∀ part, part <+: record → part ≠ record →
      size part = 0 ∨ part.length < size part)
    {stream : List β} (cut : stream <+: records.flatten) {chunks : List (List β)}
    (walked : walk size fuel stream = some chunks) : chunks <+: records := by
  induction records generalizing fuel stream chunks with
  | nil =>
    have empty : stream = [] := List.prefix_nil.mp cut
    rw [empty, walk_nil] at walked
    exact Option.some.inj walked ▸ List.prefix_rfl
  | cons record rest inductionHypothesis =>
    obtain ⟨nonempty, announced⟩ := sized record List.mem_cons_self
    by_cases empty : stream = []
    · rw [empty, walk_nil] at walked
      exact Option.some.inj walked ▸ List.nil_prefix
    · cases fuel with
      | zero =>
        cases stream with
        | nil => exact absurd rfl empty
        | cons c more => cases walked
      | succ fuel =>
        rw [walk_cons size fuel empty] at walked
        split at walked
        · cases walked
        · next accepted =>
          obtain ⟨tail, further, rfl⟩ := Option.map_eq_some_iff.mp walked
          have whole : record <+: stream := by
            rcases List.prefix_or_prefix_of_prefix cut (List.prefix_append record rest.flatten) with
              early | late
            · by_cases same : stream = record
              · rw [same]
              · exact absurd (short record List.mem_cons_self _ early same) accepted
            · exact late
          obtain ⟨behind, rfl⟩ := whole
          rw [announced, List.drop_left] at further
          rw [announced, List.take_left]
          have later : behind <+: rest.flatten := (List.prefix_append_right_inj record).mp cut
          exact List.cons_prefix_cons.mpr ⟨rfl, inductionHypothesis fuel
            (fun other member => sized other (List.mem_cons_of_mem _ member))
            (fun other member => short other (List.mem_cons_of_mem _ member)) later further⟩

end Tracey.BitLayout
