import Timepiece.Decimal.Shortest

/-!
# How floats are written

Two texts of a float occur: the plain one, shown to people and sent to the
watch, and the one in JSON.  Both write the shortest decimal; they differ in
when they use an exponent, in what they do with whole numbers, and in what they
write for values that are no finite number.

## Main definitions

* `FloatStyle` — the choices that a text of a float has to make.
* `FloatStyle.plain`, `FloatStyle.json` — the two sets of choices in use.
* `FloatStyle.write` — the text of a float.
-/

namespace Timepiece

/-- The choices that a text of a float has to make. -/
structure FloatStyle where
  /-- Which of two equally near decimals is written. -/
  tie : TieRule
  /-- The exponents of the first digit for which the point is put in its place;
  outside them an exponent is written.  With no range the point is always put in
  its place. -/
  positional : Option (Int × Int)
  /-- What follows a whole number that is written without an exponent. -/
  wholeEnd : String
  /-- The text of a positive infinity. -/
  infinite : String
  /-- The text of a negative infinity. -/
  negativeInfinite : String
  /-- The text of a value that is not a number. -/
  notANumber : String

namespace FloatStyle

/-- The text shown to people: never an exponent, and whole numbers as such. -/
def plain : FloatStyle where
  tie := .up
  positional := none
  wholeEnd := ""
  infinite := "inf"
  negativeInfinite := "-inf"
  notANumber := "NaN"

/-- The text in JSON: an exponent below `1e-5` and from `1e+16` on, a point in
every number without one, and `null` for what JSON has no numbers for. -/
def json : FloatStyle where
  tie := .even
  positional := some (-5, 15)
  wholeEnd := ".0"
  infinite := "null"
  negativeInfinite := "null"
  notANumber := "null"

/-- The digits of a decimal, without a point. -/
def digitText (d : Decimal) : List Char := Nat.toDigits 10 d.digits

/-- A decimal with the point in its place. -/
def positionalText (style : FloatStyle) (d : Decimal) : List Char :=
  let digits := digitText d
  if d.digits = 0 then '0' :: style.wholeEnd.toList
  else if d.point ≤ 0 then
    ['0', '.'] ++ List.replicate (-d.point).toNat '0' ++ digits
  else
    let point := d.point.toNat
    if digits.length ≤ point then
      digits ++ List.replicate (point - digits.length) '0' ++ style.wholeEnd.toList
    else digits.take point ++ '.' :: digits.drop point

/-- A decimal with one digit before the point and an exponent. -/
def exponentText (d : Decimal) : List Char :=
  let e := d.point - 1
  let exponent := (if e < 0 then '-' else '+') :: Nat.toDigits 10 e.natAbs
  match digitText d with
  | first :: second :: rest => first :: '.' :: second :: rest ++ 'e' :: exponent
  | digits => digits ++ 'e' :: exponent

/-- Whether the style puts the point of a decimal in its place. -/
def isPositional (style : FloatStyle) (d : Decimal) : Bool :=
  match style.positional with
  | none => true
  | some (least, greatest) =>
    d.digits == 0 || (least ≤ d.point - 1 && d.point - 1 ≤ greatest)

/-- The text of the float with the given bits. -/
def writeBits (style : FloatStyle) (bits : UInt64) : List Char :=
  if Binary64.isSpecial bits then
    (if Binary64.fractionBits bits ≠ 0 then style.notANumber
     else if Binary64.isNegative bits then style.negativeInfinite
     else style.infinite).toList
  else
    let d := Decimal.shortest style.tie bits
    let text := if style.isPositional d then style.positionalText d else exponentText d
    if Binary64.isNegative bits then '-' :: text else text

/-- The text of a float. -/
def write (style : FloatStyle) (v : Float) : String :=
  String.ofList (style.writeBits v.toBits)

end FloatStyle

end Timepiece
