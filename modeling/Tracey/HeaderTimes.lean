import Tracey.PerfScriptParser

/-!
# The times of headers

A header prints its time in seconds, with any number of digits behind the point.
The parser fills the fraction up to nine digits or cuts it there, and reads both
parts as numbers. This rounds the printed number down to nanoseconds, so it
keeps the order of printed times.
-/

namespace Tracey.PerfScriptParser

open Numerals

/-- A time as it is printed, in digits before and behind the point. There may be
any number of either. -/
structure PrintedTime where
  hi : Text
  lo : Text
  hiDigits : ∀ c ∈ hi, isDigit 10 c = true
  loDigits : ∀ c ∈ lo, isDigit 10 c = true
  fits : value 10 hi * 10 ^ 9 + 999999999 < 2 ^ 64

/-- The decimal number that is printed. A time without a fraction is a whole
number. -/
def PrintedTime.seconds (t : PrintedTime) : ℚ := value 10 t.hi + value 10 t.lo / 10 ^ t.lo.length

/-- The fraction, filled up or cut, is a number of nanoseconds rounded down.
Digits behind the ninth are dropped. -/
theorem nanoseconds_digits {lo : Text} (digits : ∀ c ∈ lo, isDigit 10 c = true) :
    value 10 (lo.take 9 ++ List.replicate (9 - lo.length) (byte '0')) =
      value 10 lo * 10 ^ 9 / 10 ^ lo.length := by
  have filled := value_trailing 10 (9 - lo.length) (lo.take 9)
  refine filled.trans ?_
  rw [value_take digits]
  rcases Nat.le_total lo.length 9 with short | long
  · have width : 10 ^ 9 = 10 ^ (9 - lo.length) * 10 ^ lo.length := by
      rw [← pow_add, Nat.sub_add_cancel short]
    rw [Nat.sub_eq_zero_of_le short, pow_zero, Nat.div_one, width, ← Nat.mul_assoc,
      Nat.mul_div_cancel _ (Nat.pow_pos (by decide))]
  · have width : 10 ^ lo.length = 10 ^ (lo.length - 9) * 10 ^ 9 := by
      rw [← pow_add, Nat.sub_add_cancel long]
    rw [Nat.sub_eq_zero_of_le long, pow_zero, Nat.mul_one, width,
      Nat.mul_div_mul_right _ _ (by decide)]

/-- Nothing is lost when a printed time is read, but for the digits behind the
ninth. -/
theorem parseTime_value (t : PrintedTime) :
    (parseTime t.hi t.lo).toNat = value 10 t.hi * 10 ^ 9 + value 10 t.lo * 10 ^ 9 / 10 ^ t.lo.length := by
  have fits := t.fits
  have fraction := nanoseconds_digits t.loDigits
  have below : value 10 t.lo * 10 ^ 9 / 10 ^ t.lo.length < 10 ^ 9 := by
    apply Nat.div_lt_of_lt_mul
    exact Nat.mul_lt_mul_of_pos_right (value_lt t.loDigits) (by decide)
  have seconds : fromChars 10 64 t.hi = value 10 t.hi := fromChars_digits t.hiDigits (by omega)
  have digits : ∀ c ∈ t.lo.take 9 ++ List.replicate (9 - t.lo.length) (byte '0'),
      isDigit 10 c = true := by
    intro c member
    rcases List.mem_append.mp member with kept | zero
    · exact t.loDigits c (List.mem_of_mem_take kept)
    · rw [List.eq_of_mem_replicate zero]
      decide
  have nanoseconds : fromChars 10 64 _ = _ := fromChars_digits digits (by rw [fraction]; omega)
  rw [parseTime, seconds, nanoseconds, fraction]
  simp only [UInt64.toNat_add, UInt64.toNat_mul, UInt64.toNat_ofNat']
  change (value 10 t.hi % 2 ^ 64 * 1000000000 % 2 ^ 64 + _ % 2 ^ 64) % 2 ^ 64 = _
  omega

/-- The number printed, rounded down to nanoseconds. The seconds are whole
already, so only the fraction is rounded. -/
theorem seconds_floor (t : PrintedTime) :
    ⌊t.seconds * 10 ^ 9⌋₊ = value 10 t.hi * 10 ^ 9 + value 10 t.lo * 10 ^ 9 / 10 ^ t.lo.length := by
  have positive : 0 < 10 ^ t.lo.length := Nat.pow_pos (by decide)
  have quotient : t.seconds * 10 ^ 9 =
      ((value 10 t.lo * 10 ^ 9 + value 10 t.hi * 10 ^ 9 * 10 ^ t.lo.length : Nat) : ℚ) /
        ((10 ^ t.lo.length : Nat) : ℚ) := by
    rw [PrintedTime.seconds]
    push_cast
    field_simp
    ring
  rw [quotient, Nat.floor_div_eq_div, Nat.add_mul_div_right _ _ positive, Nat.add_comm]

/-- A printed time is read as its number of nanoseconds, rounded down, and of
two printed times the one that is not larger is not read as larger, however many
digits each has. -/
theorem header_times_exact (first second : PrintedTime) :
    (parseTime first.hi first.lo).toNat = ⌊first.seconds * 10 ^ 9⌋₊ ∧
      (first.seconds ≤ second.seconds →
        parseTime first.hi first.lo ≤ parseTime second.hi second.lo) := by
  have floored : ∀ t : PrintedTime, (parseTime t.hi t.lo).toNat = ⌊t.seconds * 10 ^ 9⌋₊ :=
    fun t => (parseTime_value t).trans (seconds_floor t).symm
  refine ⟨floored first, ?_⟩
  intro ordered
  rw [UInt64.le_iff_toNat_le, floored first, floored second]
  apply Nat.floor_mono
  gcongr

/-- Nine tenths of a second are not before one tenth that is printed with more
digits. -/
theorem header_times_exact_tenth :
    parseTime (text "12") (text "1000000000") ≤ parseTime (text "12") (text "9") := by
  have digits {s : Text} (all : s.all (isDigit 10) = true) : ∀ c ∈ s, isDigit 10 c = true :=
    List.all_eq_true.mp all
  let tenth : PrintedTime :=
    ⟨text "12", text "1000000000", digits (by decide), digits (by decide), by decide⟩
  let nineTenths : PrintedTime :=
    ⟨text "12", text "9", digits (by decide), digits (by decide), by decide⟩
  have seconds : value 10 (text "12") = 12 := by decide
  have first : value 10 (text "1000000000") = 1000000000 := by decide
  have second : value 10 (text "9") = 9 := by decide
  have ordered : tenth.seconds ≤ nineTenths.seconds := by
    change (value 10 (text "12") : ℚ) + value 10 (text "1000000000") / 10 ^ 10 ≤
      value 10 (text "12") + value 10 (text "9") / 10 ^ 1
    rw [seconds, first, second]
    norm_num
  exact (header_times_exact tenth nineTenths).2 ordered

end Tracey.PerfScriptParser
