import Timepiece.Decimal.Binary64

/-!
# Reading a float from text

A value that an extension reports as text may still stand for a number.  The
text is an optional sign followed by the word `inf`, `infinity` or `nan` in
letters of either case, or by a decimal: digits with an optional point, of which
at least one digit, and an optional exponent.  The float nearest to the decimal
is taken.

## Main definitions

* `readFloat?` — the float of a text.
-/

namespace Timepiece

/-- Whether a character is an ASCII digit. -/
def isDigit (c : Char) : Bool := '0' ≤ c && c ≤ '9'

/-- The number that a string of digits stands for, the empty one for zero. -/
def digitsValue (digits : List Char) : Nat :=
  digits.foldl (fun n c => n * 10 + (c.toNat - '0'.toNat)) 0

/-- How many leading digits of a decimal are worked out.  A float halfway between
two others has fewer digits than that, so of what follows it matters only whether
it is zero. -/
def significantDigits : Nat := 800

/-- The float nearest to a whole number, given by its digits, times a power of
ten. -/
def floatOfDigits (digits : List Char) (e : Int) : Float :=
  let digits := digits.dropWhile (· == '0')
  let rest := digits.drop significantDigits
  let lead := digitsValue (digits.take significantDigits)
  if rest.all (· == '0') then Binary64.ofScaled lead (e + rest.length)
  else Binary64.ofScaled (lead * 10 + 1) (e + rest.length - 1)

/-- From this size on an exponent takes in no more digits. -/
def exponentLimit : Nat := 65536

/-- The exponent that some digits stand for.  Digits that follow one that is too
large already are passed over. -/
def exponentValue (digits : List Char) : Nat :=
  digits.foldl (fun n c => if n < exponentLimit then n * 10 + (c.toNat - '0'.toNat) else n) 0

/-- An exponent without its sign: one or more digits. -/
def readExponentSize? (digits : List Char) : Option Nat :=
  if !digits.isEmpty && digits.all isDigit then some (exponentValue digits) else none

/-- The exponent that follows the digits of a decimal, zero if nothing
follows. -/
def readExponent? : List Char → Option Int
  | [] => some 0
  | mark :: rest =>
    if mark = 'e' ∨ mark = 'E' then
      match rest with
      | '-' :: digits => (readExponentSize? digits).map fun n => -(n : Int)
      | '+' :: digits => (readExponentSize? digits).map fun n => (n : Int)
      | digits => (readExponentSize? digits).map fun n => (n : Int)
    else none

/-- An unsigned decimal. -/
def readDecimal? (text : List Char) : Option Float :=
  let (whole, rest) := text.span isDigit
  let (fraction, rest) := match rest with
    | '.' :: after => after.span isDigit
    | rest => ([], rest)
  if whole.isEmpty && fraction.isEmpty then none
  else (readExponent? rest).map fun e => floatOfDigits (whole ++ fraction) (e - fraction.length)

/-- An unsigned number: a decimal or one of the words. -/
def readMagnitude? (text : List Char) : Option Float :=
  let word := String.ofList (text.map Char.toLower)
  if word = "inf" ∨ word = "infinity" then some (Float.ofBits 0x7FF0000000000000)
  else if word = "nan" then some (Float.ofBits 0x7FF8000000000000)
  else readDecimal? text

/-- The float that a text stands for. -/
def readFloat? : List Char → Option Float
  | '-' :: rest => (readMagnitude? rest).map fun v => -v
  | '+' :: rest => readMagnitude? rest
  | text => readMagnitude? text

end Timepiece
