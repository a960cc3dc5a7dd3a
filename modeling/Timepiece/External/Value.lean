import Timepiece.Decimal.Reading
import Timepiece.External.Property
import Timepiece.Text.Ascii
import Timepiece.Text.Blank

/-!
# Values of properties

An extension reports a whole number, a float, a text, or nothing.  The watch
takes numbers as scaled big-endian integers, texts as ASCII cut to a length, and
ordinals as one byte.  Nothing counts as zero or as the empty text.

## Main definitions

* `Value` — what an extension reports.
* `Value.sameOption` — whether two reports are equal; floats are compared as
  numbers, so that something that is not a number equals nothing.
* `Value.encode` — the bytes of a report for a property.

## Main results

* `Value.length_encodeNumber` — a number takes as many bytes as its size class
  says.
* `Value.encodeText_length_le` — a text is cut to its length.
-/

namespace Timepiece

/-- What an extension reports of a property. -/
inductive Value where
  | integer (n : Int)
  | float (v : Float)
  | text (s : String)

namespace Value

/-! ### Comparison and text -/

/-- Whether two values are equal.  Values of different kinds are not, and floats
are compared as numbers. -/
def same : Value → Value → Bool
  | integer a, integer b => a == b
  | float a, float b => a == b
  | text a, text b => a == b
  | _, _ => false

/-- Whether two reports are equal. -/
def sameOption : Option Value → Option Value → Bool
  | none, none => true
  | some a, some b => same a b
  | _, _ => false

/-- The text of a value as it is shown. -/
def display : Value → String
  | integer n => String.ofList (Json.integerText n)
  | float v => FloatStyle.plain.write v
  | text s => s

/-- The text of a value that is one. -/
def asText? : Value → Option String
  | text s => some s
  | _ => none

/-- Whether a value is of the kind that carries fractions. -/
def isFractional : Value → Bool
  | float _ => true
  | _ => false

/-- A value as JSON. -/
def toJson : Value → Json
  | integer n => .number (.integer n)
  | float v => .number (.float v)
  | text s => .text s

/-- The value of a JSON value: whole numbers within 64 bits, other numbers as
floats, and texts. -/
def ofJson : Json → Reading Value
  | .number (.integer n) =>
    .ok (if Text.inSigned64 n then integer n else float (Binary64.ofScaled n.natAbs 0))
  | .number (.float v) => .ok (float v)
  | .text s => .ok (text s)
  | _ => .error .mismatch

/-- A value, straight from the text. -/
def ofOutline (outline : Outline) : Reading Value := do ofJson (← outline.value)

/-! ### Numbers for the watch -/

/-- The nearest signed 64-bit number. -/
def saturate (n : Int) : Int := max (-0x8000000000000000) (min 0x7FFFFFFFFFFFFFFF n)

/-- The power of ten that a precision scales by. -/
def scale (precision : Nat) : Int := saturate (Nat.pow 10 precision)

/-- A float scaled and rounded, a half away from zero, to the nearest signed
64-bit number.  What is not a number becomes zero. -/
def scaleFloat (v : Float) (precision : Nat) : Int :=
  (v * (Int64.ofInt (scale precision)).toFloat).round.toInt64.toInt

/-- The scaled number that a report stands for.  Texts are read as floats, and
those that are none count as zero. -/
def scaled (precision : Nat) : Option Value → Int
  | some (integer n) => saturate (n * scale precision)
  | some (float v) => scaleFloat v precision
  | some (text s) =>
    match readFloat? (Text.trim s.toList) with
    | some v => scaleFloat v precision
    | none => 0
  | none => 0

/-- A number in as many low-order bytes as its size class says, negative ones in
two's complement. -/
def encodeNumber (range : Range) (value : Option Value) : Bytes :=
  bigEndian range.sizeClass (scaled range.precision value % UInt64.size).toNat

@[simp] theorem length_encodeNumber (range : Range) (value : Option Value) :
    (encodeNumber range value).length = range.sizeClass :=
  length_bigEndian _ _

/-! ### Texts and ordinals for the watch -/

/-- A report folded to ASCII. -/
def folded : Option Value → List Char
  | some value => Text.foldAscii value.display.toList
  | none => []

/-- A text cut to the length that its range allows. -/
def encodeText (range : Range) (value : Option Value) : Bytes :=
  (Text.asciiBytes (folded value)).take range.raw.toNat

/-- A text is cut to its length. -/
theorem encodeText_length_le (range : Range) (value : Option Value) :
    (encodeText range value).length ≤ range.raw.toNat :=
  List.length_take_le _ _

/-- The ordinal that a report stands for; zero if it is none or does not fit a
byte. -/
def ordinal : Option Value → UInt8
  | some (integer n) => if 0 ≤ n ∧ n < 256 then UInt8.ofNat n.toNat else 0
  | some (float v) =>
    let rounded := v.round
    if 0.0 ≤ rounded && rounded ≤ 255.0 then rounded.toUInt8 else 0
  | _ => 0

/-- The bytes of a report for a property. -/
def encode (property : Property) (value : Option Value) : Bytes :=
  match property.kind with
  | .number => encodeNumber property.range value
  | .text => encodeText property.range value
  | .ordinal => [ordinal value]

end Value

end Timepiece
