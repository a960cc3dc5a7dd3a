/-!
# Binary floating-point numbers as exact fractions

A finite 64-bit float is a whole number times a power of two.  Reading and
writing decimal text needs that number exactly, and needs the float nearest to a
given fraction.

## Main definitions

* `Binary64.mantissa`, `Binary64.exponent` — a finite float is
  `mantissa * 2 ^ exponent`, up to its sign.
* `Binary64.nearest num den` — the float nearest to `num / den`.
* `Binary64.ofScaled m e` — the float nearest to `m * 10 ^ e`.
-/

namespace Timepiece.Binary64

/-- How many values the fifty-two fraction bits can have. -/
def fractionSize : Nat := 0x10000000000000

/-- The eleven exponent bits. -/
def exponentBits (bits : UInt64) : Nat := bits.toNat / fractionSize % 2048

/-- The fifty-two fraction bits. -/
def fractionBits (bits : UInt64) : Nat := bits.toNat % fractionSize

/-- Whether the sign bit is set; it is for `-0.0`. -/
def isNegative (bits : UInt64) : Bool := 0x8000000000000000 ≤ bits.toNat

/-- Whether the bits are those of an infinity or of something that is not a
number. -/
def isSpecial (bits : UInt64) : Bool := exponentBits bits == 2047

/-- The whole number in a finite float, with the implicit leading bit. -/
def mantissa (bits : UInt64) : Nat :=
  if exponentBits bits = 0 then fractionBits bits else fractionBits bits + fractionSize

/-- The power of two that the whole number is multiplied by. -/
def exponent (bits : UInt64) : Int := max (exponentBits bits : Int) 1 - 1075

/-- The bits of positive infinity. -/
def infinityBits : Nat := 2047 * fractionSize

/-- Whether `2 ^ k ≤ num / den`. -/
def powerAtMost (k : Int) (num den : Nat) : Bool :=
  if 0 ≤ k then den * Nat.pow 2 k.toNat ≤ num else den ≤ num * Nat.pow 2 (-k).toNat

/-- `num / den` rounded to a whole number, a half to the even neighbour. -/
def roundHalfEven (num den : Nat) : Nat :=
  let whole := num / den
  let rest := num % den
  if den < 2 * rest ∨ (den = 2 * rest ∧ whole % 2 = 1) then whole + 1 else whole

/-- The bits of the non-negative float nearest to `num / den`.  A half goes to
the even neighbour, and what is too large becomes infinite. -/
def nearest (num den : Nat) : UInt64 :=
  if num = 0 then 0
  else
    let guess : Int := (Nat.log2 num : Int) - Nat.log2 den
    let top := if powerAtMost guess num den then guess else guess - 1
    let unit := max (top - 52) (-1074)
    let whole :=
      if 0 ≤ unit then roundHalfEven num (den * Nat.pow 2 unit.toNat)
      else roundHalfEven (num * Nat.pow 2 (-unit).toNat) den
    UInt64.ofNat (min infinityBits ((unit + 1074).toNat * fractionSize + whole))

/-- The number of decimal digits of a number, zero having none. -/
def digitCount (n : Nat) : Nat := if n = 0 then 0 else (Nat.toDigits 10 n).length

/-- The non-negative float nearest to `m * 10 ^ e`.  Numbers far outside the
range are not worked out. -/
def ofScaled (m : Nat) (e : Int) : Float :=
  let size := (digitCount m : Int) + e
  Float.ofBits <|
    if m = 0 ∨ size < -400 then 0
    else if 400 < size then UInt64.ofNat infinityBits
    else if 0 ≤ e then nearest (m * Nat.pow 10 e.toNat) 1
    else nearest m (Nat.pow 10 (-e).toNat)

end Timepiece.Binary64
