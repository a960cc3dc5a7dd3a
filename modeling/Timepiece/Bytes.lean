/-!
# Bytes and big-endian words

Everything the watch stores or receives is a string of bytes in which wider
numbers stand most significant byte first.

## Main definitions

* `Bytes` — a string of bytes.
* `bigEndian w n` — the `w` low-order bytes of `n`, most significant first.
* `ofBigEndian` — the unsigned number such a string stands for.
* `hexByte` — a byte as two hexadecimal digits.

## Main results

* `length_bigEndian` — the width asked for is the width written.
* `ofBigEndian_bigEndian` — reading back gives the number modulo `256 ^ w`.
-/

namespace Timepiece

/-- A string of bytes, in the order in which they are stored or sent. -/
abbrev Bytes := List UInt8

/-! ### Numbers as bytes -/

/-- The `width` low-order bytes of `n`, most significant first.  Higher bytes of
`n` are dropped. -/
def bigEndian : (width : Nat) → (n : Nat) → Bytes
  | 0, _ => []
  | width + 1, n => bigEndian width (n / 256) ++ [UInt8.ofNat n]

/-- The unsigned number a big-endian string of bytes stands for. -/
def ofBigEndian (bytes : Bytes) : Nat :=
  bytes.foldl (fun n byte => n * 256 + byte.toNat) 0

@[simp] theorem bigEndian_zero (n : Nat) : bigEndian 0 n = [] := rfl

theorem bigEndian_succ (width n : Nat) :
    bigEndian (width + 1) n = bigEndian width (n / 256) ++ [UInt8.ofNat n] := rfl

/-- The width asked for is the width written. -/
@[simp] theorem length_bigEndian (width n : Nat) : (bigEndian width n).length = width := by
  induction width generalizing n with
  | zero => rfl
  | succ width ih => simp [bigEndian_succ, ih]

@[simp] theorem ofBigEndian_nil : ofBigEndian [] = 0 := rfl

/-- One more low-order byte multiplies by 256 and adds. -/
theorem ofBigEndian_append_singleton (bytes : Bytes) (byte : UInt8) :
    ofBigEndian (bytes ++ [byte]) = ofBigEndian bytes * 256 + byte.toNat := by
  simp [ofBigEndian, List.foldl_append]

/-- Reading `width` bytes back gives the number modulo `256 ^ width`. -/
theorem ofBigEndian_bigEndian (width n : Nat) :
    ofBigEndian (bigEndian width n) = n % Nat.pow 256 width := by
  induction width generalizing n with
  | zero => exact (Nat.mod_one n).symm
  | succ width ih =>
    have step : Nat.pow 256 (width + 1) = 256 * Nat.pow 256 width := Nat.mul_comm _ _
    rw [bigEndian_succ, ofBigEndian_append_singleton, ih, step, UInt8.toNat_ofNat', Nat.mod_mul]
    omega

/-- A 16-bit word as two bytes. -/
def wordBytes (word : UInt16) : Bytes := bigEndian 2 word.toNat

/-- A 32-bit word as four bytes. -/
def longBytes (word : UInt32) : Bytes := bigEndian 4 word.toNat

/-- A signed 32-bit number as four bytes, in two's complement. -/
def signedBytes (word : Int32) : Bytes := longBytes word.toUInt32

/-! ### Bytes as text -/

/-- A hexadecimal digit, in lower case. -/
def hexDigit (n : Nat) : Char :=
  if n < 10 then Char.ofNat ('0'.toNat + n) else Char.ofNat ('a'.toNat + (n - 10))

/-- A byte as two hexadecimal digits. -/
def hexByte (byte : UInt8) : String :=
  String.ofList [hexDigit (byte.toNat / 16), hexDigit (byte.toNat % 16)]

end Timepiece
