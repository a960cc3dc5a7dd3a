/-!
# Integers as text

An integer is written as an optional sign and one or more ASCII digits.  Leading
zeros are allowed; blanks, separators and other digits are not.

## Main definitions

* `digitValue?` — the value of an ASCII digit.
* `naturalBelow?` — one or more digits, read in base ten.
* `integerBelow?` — an optional sign and digits.
* `signed64?`, `unsigned32?` — the same within the ranges of machine words.
-/

namespace Timepiece.Text

/-- The value of an ASCII digit. -/
def digitValue? (c : Char) : Option Nat :=
  if '0' ≤ c ∧ c ≤ '9' then some (c.toNat - '0'.toNat) else none

/-- Reads digits after those that gave `n`, as long as the number stays below a
bound. -/
def readDigits? (bound n : Nat) : List Char → Option Nat
  | [] => some n
  | c :: rest => match digitValue? c with
    | some d => if n * 10 + d < bound then readDigits? bound (n * 10 + d) rest else none
    | none => none

/-- One or more ASCII digits, read in base ten; nothing from the bound on. -/
def naturalBelow? (bound : Nat) (text : List Char) : Option Nat :=
  if text.isEmpty then none else readDigits? bound 0 text

/-- An optional sign and one or more ASCII digits; nothing whose size is not below
the bound. -/
def integerBelow? (bound : Nat) : List Char → Option Int
  | '-' :: rest => (naturalBelow? bound rest).map fun n => -(n : Int)
  | '+' :: rest => (naturalBelow? bound rest).map fun n => (n : Int)
  | text => (naturalBelow? bound text).map fun n => (n : Int)

/-- Whether a number is a signed 64-bit integer. -/
def inSigned64 (n : Int) : Bool := -0x8000000000000000 ≤ n && n < 0x8000000000000000

/-- Whether a number is a signed 32-bit integer. -/
def inSigned32 (n : Int) : Bool := -0x80000000 ≤ n && n < 0x80000000

/-- A signed 64-bit integer as text; nothing outside the range. -/
def signed64? (text : List Char) : Option Int :=
  (integerBelow? UInt64.size text).filter inSigned64

/-- An unsigned 32-bit integer as text.  A plus sign is allowed, a minus sign is
not, not even before zero. -/
def unsigned32? : List Char → Option UInt32
  | '-' :: _ => none
  | text => (integerBelow? UInt32.size text).map fun n => UInt32.ofNat n.toNat

end Timepiece.Text
