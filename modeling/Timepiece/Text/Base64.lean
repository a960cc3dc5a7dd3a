import Timepiece.Bytes

/-!
# Base64

Binary attachments are written in a document as base64 text in the standard
alphabet: three bytes become four characters, the last group is filled up with
`=`, and the bits that the filling leaves over are zero.

## Main definitions

* `Base64.encode` — the text of a string of bytes.
* `Base64.decode?` — the bytes of a text; nothing unless the text is exactly
  what `encode` would write.
-/

namespace Timepiece.Base64

/-- The character of a six-bit value. -/
def digit (n : Nat) : Char :=
  if n < 26 then Char.ofNat (n + 'A'.toNat)
  else if n < 52 then Char.ofNat (n - 26 + 'a'.toNat)
  else if n < 62 then Char.ofNat (n - 52 + '0'.toNat)
  else if n = 62 then '+'
  else '/'

/-- The six-bit value of a character of the alphabet. -/
def value? (c : Char) : Option Nat :=
  if 'A' ≤ c ∧ c ≤ 'Z' then some (c.toNat - 'A'.toNat)
  else if 'a' ≤ c ∧ c ≤ 'z' then some (c.toNat - 'a'.toNat + 26)
  else if '0' ≤ c ∧ c ≤ '9' then some (c.toNat - '0'.toNat + 52)
  else if c = '+' then some 62
  else if c = '/' then some 63
  else none

/-- The text of a string of bytes, with the last group filled up. -/
def encode : Bytes → List Char
  | [] => []
  | [a] => [digit (a.toNat / 4), digit (a.toNat % 4 * 16), '=', '=']
  | [a, b] =>
    [digit (a.toNat / 4), digit (a.toNat % 4 * 16 + b.toNat / 16), digit (b.toNat % 16 * 4), '=']
  | a :: b :: c :: rest =>
    digit (a.toNat / 4) :: digit (a.toNat % 4 * 16 + b.toNat / 16) ::
      digit (b.toNat % 16 * 4 + c.toNat / 64) :: digit (c.toNat % 64) :: encode rest

/-- The byte in a group of four that ends in `==`. -/
def lastByte? (a b : Char) : Option Bytes := do
  let x ← value? a
  let y ← value? b
  if y % 16 = 0 then some [UInt8.ofNat (x * 4 + y / 16)] else none

/-- The two bytes in a group of four that ends in `=`. -/
def lastTwoBytes? (a b c : Char) : Option Bytes := do
  let x ← value? a
  let y ← value? b
  let z ← value? c
  if z % 4 = 0 then
    some [UInt8.ofNat (x * 4 + y / 16), UInt8.ofNat (y % 16 * 16 + z / 4)]
  else none

/-- The three bytes of a full group. -/
def threeBytes? (a b c d : Char) : Option (UInt8 × UInt8 × UInt8) := do
  let x ← value? a
  let y ← value? b
  let z ← value? c
  let w ← value? d
  some (UInt8.ofNat (x * 4 + y / 16), UInt8.ofNat (y % 16 * 16 + z / 4),
    UInt8.ofNat (z % 4 * 64 + w))

/-- Reads the groups that follow the bytes already read, which are kept in
reverse. -/
def decodeAfter? (read : Bytes) : List Char → Option Bytes
  | [] => some read.reverse
  | [a, b, '=', '='] => (lastByte? a b).map fun last => read.reverse ++ last
  | [a, b, c, '='] => (lastTwoBytes? a b c).map fun last => read.reverse ++ last
  | a :: b :: c :: d :: rest => match threeBytes? a b c d with
    | some (x, y, z) => decodeAfter? (z :: y :: x :: read) rest
    | none => none
  | _ => none

/-- The bytes of a text.  A text that is not a whole number of groups, holds a
character outside the alphabet, is filled up elsewhere than at its end, or
leaves bits over that are not zero, has none. -/
def decode? (text : List Char) : Option Bytes := decodeAfter? [] text

end Timepiece.Base64
