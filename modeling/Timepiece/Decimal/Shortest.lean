import Timepiece.Decimal.Binary64

/-!
# The shortest decimal of a float

Of all decimals that read back as a given float, the ones with the fewest digits
are the shortest; of those the one nearest to the float is chosen.

All decimals that read back as the float form an interval around it, which holds
its ends exactly if the mantissa is even.  If the grid of decimals with `n`
digits meets the interval at all, one of the float's two neighbours on that grid
lies in it, so it is enough to try those for `n = 1, 2, …, 17`.

## Main definitions

* `Decimal` — digits and the place of the first of them.
* `TieRule` — which of two equally near decimals is taken.
* `Decimal.shortest` — the shortest decimal of a finite float.
-/

namespace Timepiece

/-- The number `0.d₁d₂… * 10 ^ point`, where `d₁d₂…` are the digits of
`digits`. -/
structure Decimal where
  /-- The significant digits, as a number not divisible by ten, or zero. -/
  digits : Nat
  /-- How many of the digits stand before the decimal point. -/
  point : Int
  deriving DecidableEq, Repr

/-- Which of two equally near decimals is taken. -/
inductive TieRule where
  /-- The larger one. -/
  | up
  /-- The one whose last digit is even. -/
  | even
  deriving DecidableEq, Repr

namespace Decimal

open Binary64

/-- The interval of numbers that read back as a float, in quarters of the
mantissa's unit. -/
structure Span where
  /-- Four times the mantissa: the float itself. -/
  centre : Nat
  /-- Halfway to the next smaller float. -/
  low : Nat
  /-- Halfway to the next larger float. -/
  high : Nat
  /-- Whether the two ends belong to the interval. -/
  closed : Bool
  /-- A quarter of the unit is `num / den`. -/
  num : Nat
  /-- The denominator of a quarter of the unit. -/
  den : Nat

/-- The interval around the float with the given bits.  Below a power of two the
next smaller float is only half as far away. -/
def Span.ofBits (bits : UInt64) : Span :=
  let m := mantissa bits
  let q := exponent bits - 2
  { centre := 4 * m
    low := if fractionBits bits = 0 ∧ 1 < exponentBits bits then 4 * m - 1 else 4 * m - 2
    high := 4 * m + 2
    closed := m % 2 == 0
    num := if 0 ≤ q then Nat.pow 2 q.toNat else 1
    den := if 0 ≤ q then 1 else Nat.pow 2 (-q).toNat }

/-- Whether `d * 10 ^ place` lies in the interval. -/
def Span.holds (s : Span) (d : Nat) (place : Int) : Bool :=
  let value := d * s.den * (if 0 ≤ place then Nat.pow 10 place.toNat else 1)
  let scale := s.num * (if 0 ≤ place then 1 else Nat.pow 10 (-place).toNat)
  if s.closed then s.low * scale ≤ value && value ≤ s.high * scale
  else s.low * scale < value && value < s.high * scale

/-- The float divided by `10 ^ place`, as a fraction. -/
def Span.scaled (s : Span) (place : Int) : Nat × Nat :=
  (s.centre * s.num * (if 0 ≤ place then 1 else Nat.pow 10 (-place).toNat),
   s.den * (if 0 ≤ place then Nat.pow 10 place.toNat else 1))

/-- The grid point with step `10 ^ place` that is to be written for the float,
if one of the two neighbours lies in the interval. -/
def Span.neighbour? (s : Span) (tie : TieRule) (place : Int) : Option Nat :=
  let (num, den) := s.scaled place
  let below := num / den
  let rest := num % den
  match s.holds below place, s.holds (below + 1) place with
  | true, false => some below
  | false, true => some (below + 1)
  | false, false => none
  | true, true =>
    if 2 * rest < den then some below
    else if den < 2 * rest then some (below + 1)
    else match tie with
      | .up => some (below + 1)
      | .even => some (if below % 2 = 0 then below else below + 1)

/-- A number without the zeros at its end, and how many there were. -/
def dropZeros : (fuel : Nat) → (n : Nat) → Nat × Nat
  | 0, n => (n, 0)
  | fuel + 1, n =>
    if n ≠ 0 ∧ n % 10 = 0 then
      let (m, zeros) := dropZeros fuel (n / 10)
      (m, zeros + 1)
    else (n, 0)

/-- Whether `10 ^ k ≤ num / den`. -/
def tenPowerAtMost (k : Int) (num den : Nat) : Bool :=
  if 0 ≤ k then den * Nat.pow 10 k.toNat ≤ num else den ≤ num * Nat.pow 10 (-k).toNat

/-- The number of digits before the decimal point of `num / den`, which is
negative or zero for small fractions: a guess from the digit counts is at most
one too small. -/
def pointOf (num den : Nat) : Int :=
  let guess := (digitCount num : Int) - digitCount den
  if tenPowerAtMost guess num den then guess + 1 else guess

/-- The first grid, from the coarsest on, that has a point to be written. -/
def search (s : Span) (tie : TieRule) (point : Int) : (digits : Nat) → (fuel : Nat) → Decimal
  | digits, 0 => ⟨digits, point⟩
  | digits, fuel + 1 =>
    let place := point - digits
    match s.neighbour? tie place with
    | some d =>
      let (m, zeros) := dropZeros 20 d
      ⟨m, (digitCount m : Int) + zeros + place⟩
    | none => search s tie point (digits + 1) fuel

/-- The shortest decimal of the finite float with the given bits, without its
sign.  Zero has no digits. -/
def shortest (tie : TieRule) (bits : UInt64) : Decimal :=
  if mantissa bits = 0 then ⟨0, 0⟩
  else
    let s := Span.ofBits bits
    let (num, den) := s.scaled 0
    search s tie (pointOf num den) 1 17

end Decimal

end Timepiece
