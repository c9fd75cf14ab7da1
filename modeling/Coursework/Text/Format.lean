import Mathlib.Data.Nat.Notation

/-!
# Formatted output

The conversions of `printf` that the sources use, writing a formatted text into an array of fixed
size, and the calendar time of `gmtime`. A text is the characters before the terminator;
writing behind the end of an array is `none`.
-/

namespace Coursework.Stdio

/-- `%d`. -/
def decimal (n : Int) : List Char :=
  if n < 0 then '-' :: Nat.toDigits 10 n.natAbs else Nat.toDigits 10 n.natAbs

/-- A field width with the flag `0`. -/
def zeroPad (width : Nat) (digits : List Char) : List Char :=
  List.replicate (width - digits.length) '0' ++ digits

/-- `%0wd` of a number that is not negative. -/
def decimalPadded (width n : Nat) : List Char :=
  zeroPad width (Nat.toDigits 10 n)

/-- `%0wo`. -/
def octalPadded (width n : Nat) : List Char :=
  zeroPad width (Nat.toDigits 8 n)

/-- The value of a 32-bit word that `%d` takes as an `int`. -/
def asInt (word : UInt32) : Int :=
  word.toBitVec.toInt

/-- Write a text and its terminator to an array of `size` characters. -/
def sprintf (size : Nat) (text : List Char) : Option (List Char) :=
  if text.length < size then some text else none

/-- Append a text to the text in an array of `size` characters. -/
def strcat (size : Nat) (buffer text : List Char) : Option (List Char) :=
  sprintf size (buffer ++ text)

/-- The text that `%s` reads from an array; without a terminator it reads on behind its end. -/
def untilNul (chars : List Char) : Option (List Char) :=
  if '\x00' ∈ chars then some (chars.takeWhile (· ≠ '\x00')) else none

/-- The fields of a row with commas between them and the line end. -/
def csvRow (fields : List (List Char)) : List Char :=
  ",".toList.intercalate fields ++ "\n".toList

/-! ## Calendar time -/

/-- The fields of `struct tm` that the sources read. -/
structure Tm where
  tmSec : Nat
  tmMin : Nat
  tmHour : Nat
  tmMday : Nat
  tmMon : Nat
  tmYear : Nat
  deriving DecidableEq

/-- A leap year of the Gregorian calendar. -/
def IsLeap (year : Nat) : Bool :=
  year % 4 = 0 && (year % 100 ≠ 0 || year % 400 = 0)

/-- The number of days of a year. -/
def daysInYear (year : Nat) : Nat :=
  if IsLeap year then 366 else 365

/-- The number of days of a month, counted from 0. -/
def daysInMonth (year month : Nat) : Nat :=
  if month = 1 then if IsLeap year then 29 else 28
  else if month ∈ [3, 5, 8, 10] then 30 else 31

/-- The period in which a day falls and its number in it, both counted from 0, where period
`start` begins with day 0. -/
def locate (length : Nat → Nat) : Nat → Nat → Nat → Nat × Nat
  | 0, start, day => (start, day)
  | fuel + 1, start, day =>
      if day < length start then (start, day)
      else locate length fuel (start + 1) (day - length start)

/-- `gmtime`. -/
def gmtime (rawtime : Nat) : Tm :=
  let day := rawtime / 86400
  let (year, yday) := locate daysInYear day 1970 day
  let (month, mday) := locate (daysInMonth year) 11 0 yday
  ⟨rawtime % 60, rawtime / 60 % 60, rawtime / 3600 % 24, mday + 1, month, year - 1900⟩

example : gmtime 951782400 = ⟨0, 0, 0, 29, 1, 100⟩ := by decide

/-! ## Characters of the texts -/

/-- A number is printed with digits and a minus sign. -/
theorem isDigit_of_mem_decimal {n : Int} {c : Char} (h : c ∈ decimal n) :
    c = '-' ∨ c.isDigit := by
  have hdigits : c ∈ Nat.toDigits 10 n.natAbs → c.isDigit :=
    Nat.isDigit_of_mem_toDigits (by decide) (by decide)
  unfold decimal at h
  split at h
  · exact (List.mem_cons.1 h).imp_right hdigits
  · exact .inr (hdigits h)

/-- Padding adds digits only. -/
theorem isDigit_of_mem_zeroPad {width : Nat} {digits : List Char} {c : Char}
    (hdigits : ∀ d ∈ digits, d.isDigit) (h : c ∈ zeroPad width digits) : c.isDigit := by
  rcases List.mem_append.1 h with h | h
  · obtain rfl := (List.mem_replicate.1 h).2
    decide
  · exact hdigits c h

/-- A padded number is printed with digits. -/
theorem isDigit_of_mem_decimalPadded {width n : Nat} {c : Char} (h : c ∈ decimalPadded width n) :
    c.isDigit :=
  isDigit_of_mem_zeroPad (fun _ => Nat.isDigit_of_mem_toDigits (by decide) (by decide)) h

/-- A padded octal number is printed with digits. -/
theorem isDigit_of_mem_octalPadded {width n : Nat} {c : Char} (h : c ∈ octalPadded width n) :
    c.isDigit :=
  isDigit_of_mem_zeroPad (fun _ => Nat.isDigit_of_mem_toDigits (by decide) (by decide)) h

/-- A text that was written is unchanged. -/
theorem eq_of_sprintf {size : Nat} {text written : List Char}
    (h : sprintf size text = some written) :
    written = text := by
  unfold sprintf at h
  split at h
  · exact (Option.some.inj h).symm
  · cases h

end Coursework.Stdio
