import Mathlib.Data.List.Basic

/-!
# Strings of the standard library

The functions on `str` that the daemon and the NTS client use.
-/

namespace RustyTime

/-- `as_bytes`. -/
def asBytes (s : String) : List UInt8 := s.toByteArray.data.toList

/-- `core::str::from_utf8`. -/
def fromUtf8 (bs : List UInt8) : Option String := String.fromUTF8? ⟨bs.toArray⟩

/-- `char::is_whitespace`: the White_Space of Unicode. -/
def isWhitespace (c : Char) : Bool :=
  let n := c.toNat
  9 ≤ n && n ≤ 13 || 0x2000 ≤ n && n ≤ 0x200A ||
    [0x20, 0x85, 0xA0, 0x1680, 0x2028, 0x2029, 0x202F, 0x205F, 0x3000].contains n

/-- `split_whitespace`: the pieces between white space, those that are not empty. -/
def splitWhitespace (s : String) : List String :=
  ((s.toList.splitOnP isWhitespace).filter fun piece => !piece.isEmpty).map String.ofList

/-- `trim`. -/
def trim (s : String) : String :=
  String.ofList ((s.toList.dropWhile isWhitespace).reverse.dropWhile isWhitespace).reverse

/-- `trim_end`. -/
def trimEnd (s : String) : String :=
  String.ofList (s.toList.reverse.dropWhile isWhitespace).reverse

/-- `split_once`: what is before the first of a character, and what is after it. -/
def splitOnce (c : Char) (s : String) : Option (String × String) :=
  if c ∈ s.toList then
    some (String.ofList (s.toList.takeWhile (· ≠ c)),
      String.ofList (s.toList.dropWhile (· ≠ c)).tail)
  else none

/-- A line that ended in a line feed, without the carriage return before it. -/
def stripCr (line : List Char) : List Char :=
  if line.getLast? = some '\r' then line.dropLast else line

/-- `lines`. The last one may end without a line feed. -/
def lines (s : String) : List String :=
  let pieces := s.toList.splitOnP fun c => c = '\n'
  let rest := pieces.getLast?.toList.filter fun piece => !piece.isEmpty
  (pieces.dropLast.map stripCr ++ rest).map String.ofList

/-- `to_ascii_lowercase`. -/
def toAsciiLowercase (s : String) : String := String.ofList (s.toList.map Char.toLower)

/-- The digits of a number, which may follow a `+`. -/
def stripPlus : List Char → List Char
  | '+' :: digits => digits
  | digits => digits

/-- `parse::<u16>`, in decimal. -/
def parseU16 (s : String) : Option UInt16 :=
  let digits := stripPlus s.toList
  if digits ≠ [] ∧ digits.all Char.isDigit ∧ Nat.ofDigitChars 10 digits 0 < 65536 then
    some (UInt16.ofNat (Nat.ofDigitChars 10 digits 0))
  else none

/-- `parse::<usize>` of a 64-bit machine, in decimal. -/
def parseUsize (s : String) : Option Nat :=
  let digits := stripPlus s.toList
  if digits ≠ [] ∧ digits.all Char.isDigit ∧ Nat.ofDigitChars 10 digits 0 < 18446744073709551616 then
    some (Nat.ofDigitChars 10 digits 0)
  else none

/-- Whether a number has a minus. -/
def isNegative (s : String) : Bool := s.toList.head? = some '-'

/-- `parse` of a signed integer of a type that ranges from `lo` to `hi`, in decimal. -/
def parseSigned (lo hi : Int) (s : String) : Option Int :=
  let digits := if isNegative s then s.toList.tail else stripPlus s.toList
  let magnitude : Int := Nat.ofDigitChars 10 digits 0
  let value := if isNegative s then -magnitude else magnitude
  if digits ≠ [] ∧ digits.all Char.isDigit ∧ lo ≤ value ∧ value ≤ hi then some value else none

/-- `parse::<i8>`. -/
def parseI8 (s : String) : Option Int8 := (parseSigned (-128) 127 s).map Int8.ofInt

/-- `parse::<i64>`. -/
def parseI64 (s : String) : Option Int :=
  parseSigned (-9223372036854775808) 9223372036854775807 s

theorem fromUtf8_asBytes (s : String) : fromUtf8 (asBytes s) = some s := by
  unfold fromUtf8 asBytes
  rw [Array.toArray_toList]
  exact dif_pos s.isValidUTF8

end RustyTime
