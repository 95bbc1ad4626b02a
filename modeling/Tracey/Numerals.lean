import Mathlib

/-!
# Numerals in ASCII

Positional notation with the digits `0` to `9` and `a` to `f`, as
`std::to_string` and the hexadecimal output of perf write it, and reading it
back as `std::from_chars` does.
-/

namespace Tracey.Numerals

/-- The ASCII byte of a digit below sixteen. -/
def digitByte (digit : Nat) : UInt8 := UInt8.ofNat (if digit < 10 then 48 + digit else 87 + digit)

/-- The numeral of a number, without leading zeros; zero has one digit. Digits
above nine are letters in lower case. -/
def numeral (base number : Nat) : List UInt8 :=
  if number = 0 then [digitByte 0] else (Nat.digits base number).reverse.map digitByte

/-- Decimal notation, as `std::to_string` writes an unsigned number. -/
def decimal (number : Nat) : List UInt8 := numeral 10 number

example : decimal 1050 = [49, 48, 53, 48] := by decide

/-- The value of a digit, in either case. Any other byte has none. -/
def digitValue (c : UInt8) : Option Nat :=
  if 48 ≤ c.toNat ∧ c.toNat ≤ 57 then some (c.toNat - 48)
  else if 97 ≤ c.toNat ∧ c.toNat ≤ 102 then some (c.toNat - 87)
  else if 65 ≤ c.toNat ∧ c.toNat ≤ 70 then some (c.toNat - 55)
  else none

/-- Whether a byte is a digit of the base. In base ten no letter is one. -/
def isDigit (base : Nat) (c : UInt8) : Bool :=
  match digitValue c with
  | some digit => digit < base
  | none => false

/-- The number that digits denote. No bound is put on it; the width of a machine
word comes in with `fromChars`. -/
def value (base : Nat) (digits : List UInt8) : Nat :=
  digits.foldl (fun total c => total * base + (digitValue c).getD 0) 0

/-- What `std::from_chars` leaves in an unsigned variable that was 0: the number
the leading digits denote, or still 0 if there are none or the number does not
fit. -/
def fromChars (base bits : Nat) (s : List UInt8) : Nat :=
  let total := value base (s.takeWhile (isDigit base))
  if total < 2 ^ bits then total else 0

/-- The same for a signed variable: a minus sign may come first. A plus sign may
not, and the digits behind the minus sign have to fit on their own. -/
def fromCharsSigned (base bits : Nat) (s : List UInt8) : Int :=
  match s with
  | [] => 0
  | c :: rest =>
    if c = 45 then
      let total := value base (rest.takeWhile (isDigit base))
      if total ≤ 2 ^ (bits - 1) then -total else 0
    else
      let total := value base (s.takeWhile (isDigit base))
      if total < 2 ^ (bits - 1) then total else 0

/-- A decimal numeral of at least this width, filled up with zeros from the
left. -/
def padded (width number : Nat) : List UInt8 :=
  List.replicate (width - (decimal number).length) (digitByte 0) ++ decimal number

theorem digitValue_digitByte : ∀ digit < 16, digitValue (digitByte digit) = some digit := by
  decide

theorem isDigit_digitByte {base digit : Nat} (small : base ≤ 16) (below : digit < base) :
    isDigit base (digitByte digit) = true := by
  rw [isDigit, digitValue_digitByte digit (by omega)]
  exact decide_eq_true below

/-- Every byte of a numeral is the digit byte of a digit of the base. -/
theorem numeral_digits {base : Nat} (large : 2 ≤ base) (number : Nat) :
    ∀ c ∈ numeral base number, ∃ digit < base, c = digitByte digit := by
  intro c member
  unfold numeral at member
  split at member
  · exact ⟨0, by omega, List.mem_singleton.mp member⟩
  · obtain ⟨digit, inside, rfl⟩ := List.mem_map.mp member
    exact ⟨digit, Nat.digits_lt_base large (List.mem_reverse.mp inside), rfl⟩

theorem numeral_ne_nil (base number : Nat) : numeral base number ≠ [] := by
  unfold numeral
  split
  · exact List.cons_ne_nil _ _
  · next nonzero =>
    simpa [Nat.digits_ne_nil_iff_ne_zero] using nonzero

theorem value_append (base : Nat) (before : List UInt8) (c : UInt8) :
    value base (before ++ [c]) = value base before * base + (digitValue c).getD 0 := by
  rw [value, List.foldl_append]
  rfl

/-- Leading zeros do not change a number. A fraction may be filled up in front
without harm. -/
theorem value_zeros (base count : Nat) (digits : List UInt8) :
    value base (List.replicate count (digitByte 0) ++ digits) = value base digits := by
  induction count with
  | zero => rfl
  | succ count inductionHypothesis =>
    rw [List.replicate_succ, List.cons_append, ← inductionHypothesis]
    have zero : (digitValue (digitByte 0)).getD 0 = 0 := by decide
    simp only [value, List.foldl_cons, zero, Nat.zero_mul, Nat.add_zero]

/-- The number of two rows of digits. The front row counts in units of the back
row's length. -/
theorem value_join (base : Nat) (before after : List UInt8) :
    value base (before ++ after) = value base before * base ^ after.length + value base after := by
  induction after using List.reverseRecOn with
  | nil => simp [value]
  | append_singleton rest c inductionHypothesis =>
    rw [← List.append_assoc, value_append, inductionHypothesis, value_append, List.length_append,
      List.length_singleton, pow_succ]
    ring

/-- Trailing zeros multiply a number. This is what filling up a fraction with
zeros means. -/
theorem value_trailing (base count : Nat) (digits : List UInt8) :
    value base (digits ++ List.replicate count (digitByte 0)) = value base digits * base ^ count := by
  have zeros := value_zeros base count []
  rw [List.append_nil] at zeros
  rw [value_join, List.length_replicate, zeros]
  exact Nat.add_zero _

/-- A row of digits is below the number that needs one digit more. Nine decimal
digits, for instance, stay below a billion. -/
theorem value_lt {base : Nat} {digits : List UInt8} (all : ∀ c ∈ digits, isDigit base c = true) :
    value base digits < base ^ digits.length := by
  induction digits using List.reverseRecOn with
  | nil => simp [value]
  | append_singleton rest c inductionHypothesis =>
    have others := inductionHypothesis (fun d member => all d (List.mem_append_left _ member))
    have last := all c (List.mem_append_right _ List.mem_cons_self)
    have small : (digitValue c).getD 0 < base := by
      unfold isDigit at last
      split at last
      · next digit found =>
        rw [found]
        exact of_decide_eq_true last
      · cases last
    rw [value_append, List.length_append, List.length_singleton, pow_succ]
    calc value base rest * base + (digitValue c).getD 0
        < value base rest * base + base := Nat.add_lt_add_left small _
      _ = (value base rest + 1) * base := (Nat.succ_mul _ _).symm
      _ ≤ base ^ rest.length * base := Nat.mul_le_mul_right base others

/-- The leading digits of a row of digits denote its number, rounded down.
Cutting a fraction rounds towards zero. -/
theorem value_take {base : Nat} {digits : List UInt8} (all : ∀ c ∈ digits, isDigit base c = true)
    (count : Nat) :
    value base (digits.take count) = value base digits / base ^ (digits.length - count) := by
  have rest : ∀ c ∈ digits.drop count, isDigit base c = true := fun c member =>
    all c (List.mem_of_mem_drop member)
  have small := value_lt rest
  have whole := value_join base (digits.take count) (digits.drop count)
  rw [List.take_append_drop] at whole
  rw [List.length_drop] at small whole
  rw [whole, Nat.add_div_of_dvd_right (Nat.dvd_mul_left _ _), Nat.div_eq_of_lt small, Nat.add_zero,
    Nat.mul_div_cancel _ (Nat.zero_lt_of_lt small)]

/-- Reading digits gives the number they denote. The number has to fit the
variable; otherwise the variable keeps its zero. -/
theorem fromChars_digits {base bits : Nat} {digits : List UInt8}
    (all : ∀ c ∈ digits, isDigit base c = true) (fits : value base digits < 2 ^ bits) :
    fromChars base bits digits = value base digits := by
  rw [fromChars, List.takeWhile_eq_self_iff.mpr all, if_pos fits]

/-- A numeral denotes its number. Bases above sixteen have no digit bytes here. -/
theorem value_numeral {base : Nat} (large : 2 ≤ base) (small : base ≤ 16) (number : Nat) :
    value base (numeral base number) = number := by
  have denoted : ∀ digits : List Nat, (∀ digit ∈ digits, digit < base) →
      value base (digits.reverse.map digitByte) = Nat.ofDigits base digits := by
    intro digits below
    induction digits with
    | nil => rfl
    | cons digit rest inductionHypothesis =>
      have others := inductionHypothesis
        (fun other member => below other (List.mem_cons_of_mem digit member))
      have bound := below digit List.mem_cons_self
      rw [List.reverse_cons, List.map_append, List.map_singleton, value_append, others,
        digitValue_digitByte digit (by omega), Nat.ofDigits_cons, Option.getD_some, mul_comm,
        add_comm]
  unfold numeral
  split
  · next zero =>
    rw [zero]
    exact value_zeros base 1 []
  · rw [denoted _ (fun digit member => Nat.digits_lt_base large member), Nat.ofDigits_digits]

/-- Digits are taken up to the first byte that is none. A field and its
separator come apart this way, whatever follows. -/
theorem takeWhile_digits {p : UInt8 → Bool} {digits : List UInt8}
    (all : ∀ c ∈ digits, p c = true) (rest : List UInt8) (stops : ∀ c ∈ rest.head?, p c = false) :
    (digits ++ rest).takeWhile p = digits ∧ (digits ++ rest).dropWhile p = rest := by
  rw [List.takeWhile_append_of_pos all, List.dropWhile_append_of_pos all]
  cases rest with
  | nil => simp
  | cons c others => simp [stops c rfl]

/-- What is true of every digit byte is true of every byte of a numeral. It is
enough to look at sixteen bytes. -/
theorem numeral_forall {P : UInt8 → Prop} {base : Nat} (large : 2 ≤ base) (small : base ≤ 16)
    (digits : ∀ digit < 16, P (digitByte digit)) (number : Nat) :
    ∀ c ∈ numeral base number, P c := by
  intro c member
  obtain ⟨digit, below, rfl⟩ := numeral_digits large number c member
  exact digits digit (by omega)

/-- The first byte of a numeral, and of a text that begins with one, is a digit
byte. -/
theorem numeral_head {P : UInt8 → Prop} (base : Nat) (large : 2 ≤ base) (small : base ≤ 16)
    (digits : ∀ digit < 16, P (digitByte digit)) (number : Nat) (rest : List UInt8) :
    ∃ c more, numeral base number ++ rest = c :: more ∧ P c := by
  cases whole : numeral base number with
  | nil => exact absurd whole (numeral_ne_nil base number)
  | cons c more =>
    refine ⟨c, more ++ rest, rfl, ?_⟩
    exact numeral_forall large small digits number c (by rw [whole]; exact List.mem_cons_self)

theorem numeral_isDigit {base : Nat} (large : 2 ≤ base) (small : base ≤ 16) (number : Nat) :
    ∀ c ∈ numeral base number, isDigit base c = true := by
  intro c member
  obtain ⟨digit, below, rfl⟩ := numeral_digits large number c member
  exact isDigit_digitByte small below

theorem padded_isDigit (width number : Nat) : ∀ c ∈ padded width number, isDigit 10 c = true := by
  intro c member
  rcases List.mem_append.mp member with zero | digit
  · rw [List.eq_of_mem_replicate zero]
    decide
  · exact numeral_isDigit (by decide) (by decide) number c digit

/-- Reading a numeral gives its number back. This is the round trip for every
number that a line prints. -/
theorem fromChars_numeral {base bits number : Nat} (large : 2 ≤ base) (small : base ≤ 16)
    (fits : number < 2 ^ bits) : fromChars base bits (numeral base number) = number := by
  have denoted := value_numeral large small number
  rw [← denoted] at fits
  rw [fromChars_digits (numeral_isDigit large small number) fits, denoted]

theorem fromChars_padded {width bits number : Nat} (fits : number < 2 ^ bits) :
    fromChars 10 bits (padded width number) = number := by
  have denoted : value 10 (padded width number) = number := by
    rw [padded, value_zeros, decimal, value_numeral (by decide) (by decide)]
  rw [← denoted] at fits
  rw [fromChars_digits (padded_isDigit width number) fits, denoted]

/-- The width of a decimal numeral. The number zero needs one digit too. -/
theorem length_decimal_le {number width : Nat} (positive : 0 < width) (fits : number < 10 ^ width) :
    (decimal number).length ≤ width := by
  unfold decimal numeral
  split
  · exact positive
  · rw [List.length_map, List.length_reverse]
    exact Nat.digits_length_le_iff (by decide) number |>.mpr fits

theorem length_padded {number width : Nat} (positive : 0 < width) (fits : number < 10 ^ width) :
    (padded width number).length = width := by
  have bound := length_decimal_le positive fits
  rw [padded, List.length_append, List.length_replicate]
  omega

/-! Numbers with a sign. -/

/-- Decimal notation, with a minus sign before a negative number. -/
def signed (number : Int) : List UInt8 :=
  if number < 0 then 45 :: decimal number.natAbs else decimal number.natAbs

/-- A digit or a minus sign. So is every byte of a signed numeral; the minus
sign can only be its first. -/
theorem signed_forall {P : UInt8 → Prop} (digits : ∀ digit < 10, P (digitByte digit)) (minus : P 45)
    (number : Int) : ∀ c ∈ signed number, P c := by
  intro c member
  have magnitude : ∀ d ∈ decimal number.natAbs, P d := by
    intro d inside
    obtain ⟨digit, below, rfl⟩ := numeral_digits (by decide) number.natAbs d inside
    exact digits digit below
  unfold signed at member
  split at member
  · rcases List.mem_cons.mp member with rfl | digit
    · exact minus
    · exact magnitude c digit
  · exact magnitude c member

theorem signed_ne_nil (number : Int) : signed number ≠ [] := by
  unfold signed
  split
  · exact List.cons_ne_nil _ _
  · exact numeral_ne_nil 10 _

/-- Reading a signed numeral gives its number back, whatever comes behind its
digits. -/
theorem fromCharsSigned_signed {bits : Nat} {number : Int} (least : -2 ^ (bits - 1) ≤ number)
    (most : number < 2 ^ (bits - 1)) {rest : List UInt8}
    (stops : ∀ c ∈ rest.head?, isDigit 10 c = false) :
    fromCharsSigned 10 bits (signed number ++ rest) = number := by
  have taken := (takeWhile_digits (numeral_isDigit (by decide) (by decide) number.natAbs)
    rest stops).1
  have denoted : value 10 (decimal number.natAbs) = number.natAbs :=
    value_numeral (by decide) (by decide) _
  have power : ((2 ^ (bits - 1) : Nat) : Int) = 2 ^ (bits - 1) := by push_cast; rfl
  unfold signed
  split
  · next negative =>
    have fits : number.natAbs ≤ 2 ^ (bits - 1) := by omega
    rw [List.cons_append, fromCharsSigned, if_pos rfl, decimal, taken, ← decimal, denoted]
    simp only [fits, if_true]
    omega
  · next positive =>
    have fits : number.natAbs < 2 ^ (bits - 1) := by omega
    obtain ⟨c, more, whole, different⟩ := numeral_head (P := fun c => c ≠ 45) 10 (by decide)
      (by decide) (by decide) number.natAbs rest
    rw [decimal] at denoted
    rw [whole] at taken
    rw [decimal, whole, fromCharsSigned, if_neg different, taken, denoted]
    simp only [fits, if_true]
    omega

end Tracey.Numerals
