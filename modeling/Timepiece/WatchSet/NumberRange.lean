import Timepiece.External.Property

/-!
# Ranges of shown numbers

A number control shows numbers from zero to a bound of the form `9…9` or `19…9`,
with up to two decimals.  The bound fixes how many digits are drawn and how many
bytes the number takes.

## Main definitions

* `NumberRange` — a range, and `NumberRange.ofText?`, which reads one.
* `NumberRange.key` — the byte that stands for it in a program.
* `NumberRange.dataRange` — the room that its numbers need.
* `byteCount` — how many bytes a number takes.

## Main results

* `lt_pow_byteCount`, `pow_byteCount_le` — `byteCount` is the least such width.
-/

namespace Timepiece

/-! ### Widths -/

/-- How many bytes a number takes; zero takes none. -/
def byteCount (n : Nat) : Nat := if n = 0 then 0 else byteCount (n / 256) + 1

/-- A number fits its width. -/
theorem lt_pow_byteCount (n : Nat) : n < Nat.pow 256 (byteCount n) := by
  induction n using Nat.strongRecOn with
  | ind n ih =>
    rw [byteCount]
    split
    · subst n
      decide
    · have := ih (n / 256) (by omega)
      have step (k : Nat) : Nat.pow 256 (k + 1) = Nat.pow 256 k * 256 := rfl
      rw [step]
      omega

/-- A number does not fit a smaller width. -/
theorem pow_byteCount_le {n : Nat} (h : n ≠ 0) : Nat.pow 256 (byteCount n - 1) ≤ n := by
  induction n using Nat.strongRecOn with
  | ind n ih =>
    rw [byteCount, if_neg h, Nat.add_sub_cancel]
    by_cases hq : n / 256 = 0
    · rw [byteCount, if_pos hq]
      exact Nat.one_le_iff_ne_zero.2 h
    · have := ih (n / 256) (by omega) hq
      have hpos : byteCount (n / 256) = byteCount (n / 256) - 1 + 1 := by
        rw [byteCount, if_neg hq]
        rfl
      have step (k : Nat) : Nat.pow 256 (k + 1) = Nat.pow 256 k * 256 := rfl
      rw [hpos, step]
      omega

/-! ### Ranges -/

/-- A range from zero to a row of nines, which may be led by a one, with some
decimals. -/
structure NumberRange where
  /-- How many nines stand before the point. -/
  nines : Nat
  /-- Whether a one leads them. -/
  leadingOne : Bool
  decimals : Nat
  deriving DecidableEq, Repr

namespace NumberRange

/-- The digits drawn before the point: an odd code for nines alone, an even one
for nines led by a one. -/
def digitCode (range : NumberRange) : Nat :=
  if range.leadingOne then 2 * range.nines else 2 * range.nines - 1

/-- The byte that stands for the range in a program. -/
def key (range : NumberRange) : UInt8 := UInt8.ofNat (range.digitCode * 16 + range.decimals)

/-- The bound, counted in units of the last decimal. -/
def bound (range : NumberRange) : Nat :=
  (if range.leadingOne then 2 else 1) * Nat.pow 10 (range.nines + range.decimals) - 1

/-- How many bytes the bound takes. -/
def sizeClass (range : NumberRange) : Nat := byteCount range.bound

/-- The room that a number of the range needs. -/
def dataRange (range : NumberRange) : Range := Range.number range.sizeClass range.decimals

/-- Whether a number may be filled up with zeros on its left. -/
def allowsPadding (range : NumberRange) : Bool := !range.leadingOne

/-- The digits before the point of a bound. -/
def wholeOfDigits? : List Char → Option (Nat × Bool)
  | '1' :: nines =>
    if !nines.isEmpty && nines.all (· == '9') && nines.length ≤ 4 then some (nines.length, true)
    else none
  | nines =>
    if !nines.isEmpty && nines.all (· == '9') && nines.length ≤ 5 then some (nines.length, false)
    else none

/-- The digits after the point of a bound, of which there is at least one. -/
def decimalsOfDigits? (nines : List Char) : Option Nat :=
  if !nines.isEmpty && nines.all (· == '9') && nines.length ≤ 2 then some nines.length else none

/-- The range with a given bound. -/
def ofBound? (bound : List Char) : Option NumberRange := do
  let (nines, leadingOne) ← wholeOfDigits? (bound.takeWhile (· != '.'))
  let decimals ← match bound.dropWhile (· != '.') with
    | [] => some 0
    | _ :: digits => decimalsOfDigits? digits
  some ⟨nines, leadingOne, decimals⟩

/-- The range that a text describes. -/
def ofText? (text : String) : Option NumberRange :=
  match text.toList with
  | '0' :: '-' :: bound => ofBound? bound
  | _ => none

end NumberRange

end Timepiece
