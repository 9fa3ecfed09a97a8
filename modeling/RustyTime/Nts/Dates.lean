import RustyTime.Core.Text

/-!
# Certificate dates

`rusty_time-nts/src/dates.rs`: a UTCTime or GeneralizedTime of a certificate as a Unix second, and
the validity window of a certificate from its DER.

An `i64` is an `Int`. Where an operation may leave its range the model asks `i64`, whose `none` is
the overflow: a panic in a checked build, a wrong number in an unchecked one.
-/

namespace RustyTime

/-- A result that is an `i64`. -/
def i64 (x : Int) : Option Int :=
  if -9223372036854775808 ≤ x ∧ x ≤ 9223372036854775807 then some x else none

/-- The `y` of `days_from_civil`: the year that starts in March. -/
def marchYear (year month : Int) : Option Int := if month ≤ 2 then i64 (year - 1) else some year

/-- `days_from_civil`: days from 1970-01-01 to a proleptic Gregorian date. -/
def daysFromCivil (year month day : Int) : Option Int := do
  let y ← marchYear year month
  -- `div_euclid` rounds down, the other divisions towards zero
  let era := y / 400
  let yoe := y - (← i64 (era * 400))
  let mp := (← i64 (month + 9)).tmod 12
  let doy ← i64 ((← i64 ((153 * mp + 2).tdiv 5 + day)) - 1)
  let doe ← i64 (yoe * 365 + yoe.tdiv 4 - yoe.tdiv 100 + doy)
  i64 ((← i64 ((← i64 (era * 146097)) + doe)) - 719468)

namespace Dates

/-- `strip_suffix('Z')`. -/
def stripZ (s : List Char) : Option (List Char) :=
  if s.getLast? = some 'Z' then some s.dropLast else none

/-- `parse::<i64>` of a few digits. -/
def parse (digits : List Char) : Int := Nat.ofDigitChars 10 digits 0

/-- The year, and the digits after it. -/
def yearOf (tag : UInt8) (digits : List Char) : Option (Int × List Char) :=
  if tag = 0x17 ∧ digits.length = 12 then
    let yy := parse (digits.take 2)
    some (if 50 ≤ yy then 1900 + yy else 2000 + yy, digits.drop 2)
  else if tag = 0x18 ∧ digits.length = 14 then some (parse (digits.take 4), digits.drop 4)
  else none

/-- `time`: UTCTime (tag 0x17) or GeneralizedTime (0x18) to Unix seconds. -/
def time (tag : UInt8) (value : List UInt8) : Option Int := do
  let s ← fromUtf8 value
  let digits ← stripZ s.toList
  if !digits.all Char.isDigit then none
  else
    let (year, rest) ← yearOf tag digits
    let field (i : Nat) : Int := parse ((rest.drop i).take 2)
    let (month, day, hour, minute, second) := (field 0, field 2, field 4, field 6, field 8)
    if ¬(1 ≤ month ∧ month ≤ 12) ∨ ¬(1 ≤ day ∧ day ≤ 31) ∨ 23 < hour ∨ 59 < minute ∨
        60 < second then
      none
    else
      -- a year of four digits does not overflow
      let days ← daysFromCivil year month day
      some (days * 86400 + hour * 3600 + minute * 60 + second)

/-! ## The window of a certificate -/

/-- The length octets of an element: what they say, and what follows them. -/
def lengthOf (first : UInt8) (input : List UInt8) : Option (Nat × List UInt8) :=
  if first < 0x80 then some (first.toNat, input)
  else
    let count := (first &&& 0x7F).toNat
    if count = 0 ∨ 4 < count ∨ input.length < count then none
    else
      some ((input.take count).foldl (fun len b => (len <<< 8) ||| b.toNat) 0, input.drop count)

/-- `element`: one DER element: tag, contents, what follows. -/
def element : List UInt8 → Option (UInt8 × List UInt8 × List UInt8)
  | tag :: first :: input => do
    let (len, input) ← lengthOf first input
    if input.length < len then none else some (tag, input.take len, input.drop len)
  | _ => none

/-- An element that must have this tag. -/
def expect (expected : UInt8) (input : List UInt8) : Option (List UInt8 × List UInt8) := do
  let (tag, contents, after) ← element input
  if tag ≠ expected then none else some (contents, after)

def skip (rest : List UInt8) (expected : UInt8) : Option (List UInt8) :=
  (expect expected rest).map Prod.snd

/-- `validity`: the first and the last Unix second of a certificate. -/
def validity (der : List UInt8) : Option (Int × Int) := do
  let (cert, _) ← expect 0x30 der
  let (tbs, _) ← expect 0x30 cert
  -- [0] EXPLICIT version, present for v2 and v3 certificates
  let (tag, _, after) ← element tbs
  let rest := if tag = 0xA0 then after else tbs
  -- serialNumber, signature, issuer
  let rest ← [0x02, 0x30, 0x30].foldlM skip rest
  let (validity, _) ← expect 0x30 rest
  let (tagBefore, before, after) ← element validity
  let (tagAfter, notAfter, _) ← element after
  some (← time tagBefore before, ← time tagAfter notAfter)

end Dates

end RustyTime
