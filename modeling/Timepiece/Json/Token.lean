import Timepiece.Decimal.Binary64
import Timepiece.Json.Fault

/-!
# The words of a JSON text

A JSON text is cut into brackets, separators, literals, numbers and quoted
texts.  Cutting stops at the first place that is no word; what was cut before
stays useful, because a reader may refuse the text for an earlier reason.

A word may be well formed and still not be readable as a value: a number may be
too large for a float, and a quoted text may hold half of a surrogate pair.  That
counts only if the value is really read.  Likewise a broken word may count as
broken in one way if it is read and in the other if it is skipped.

## Main definitions

* `Token` — a word of a JSON text.
* `tokens` — the words of a text, up to the first that is broken.
-/

namespace Timepiece

/-- A word of a JSON text. -/
inductive Token where
  | openArray
  | closeArray
  | openObject
  | closeObject
  | comma
  | colon
  | null
  | bool (b : Bool)
  /-- A number; without one if it is too large for a float. -/
  | number (n : Option Number)
  /-- A quoted text; without one if it holds half of a surrogate pair. -/
  | text (s : Option String)
  /-- The text is broken here, inside a quoted text if `quoted`: with the first
  breach if the word is read, with the second if it is skipped. -/
  | broken (quoted : Bool) (read : Breach) (skipped : Breach)

namespace Token

/-! ### Numbers -/

/-- Whether a character is an ASCII digit. -/
def isDigit (c : Char) : Bool := '0' ≤ c && c ≤ '9'

/-- The largest unsigned 64-bit number. -/
def maxUnsigned : Nat := UInt64.size - 1

/-- The greatest exponent of any use. -/
def maxExponent : Nat := 2147483647

/-- Appends digits to a number as long as it fits 64 bits, and counts how many
were appended. -/
def takeDigits (n taken : Nat) : List Char → Nat × Nat
  | [] => (n, taken)
  | c :: rest =>
    let next := n * 10 + (c.toNat - '0'.toNat)
    if maxUnsigned < next then (n, taken) else takeDigits next (taken + 1) rest

/-- Brings a significand to its power of ten in steps that a float can hold.
Powers above `10 ^ 308` are taken in several steps, each of which may round;
nothing is returned if the number becomes too large.  The steps are bounded by
the size of the exponent. -/
def scale (f : Float) (e : Int) : (fuel : Nat) → Option Float
  | 0 => some f
  | fuel + 1 =>
    if e.natAbs ≤ 308 then
      let power := Binary64.ofScaled 1 e.natAbs
      if 0 ≤ e then
        let product := f * power
        if product.isInf then none else some product
      else some (f / power)
    else if f == 0.0 then some f
    else if 0 ≤ e then none
    else scale (f / Binary64.ofScaled 1 308) (e + 308) fuel

/-- The float with a significand of up to 64 bits and a power of ten. -/
def floatOf (negative : Bool) (significand : Nat) (e : Int) : Option Number :=
  (scale (UInt64.ofNat significand).toFloat e 4).map fun f =>
    .float (if negative then -f else f)

/-- The pieces of a number: sign, whole digits, digits after the point, and the
exponent. -/
structure NumberPieces where
  negative : Bool
  whole : List Char
  fraction : Option (List Char)
  exponent : Option Int

/-- The number that the pieces stand for.  A whole number that fits is whole,
except for a negative zero.  Of other numbers those leading digits count that
fit 64 bits. -/
def NumberPieces.value (p : NumberPieces) : Option Number :=
  let (n, taken) := takeDigits 0 0 p.whole
  let dropped := p.whole.length - taken
  if dropped = 0 ∧ p.fraction.isNone ∧ p.exponent.isNone then
    if p.negative = false then some (.integer n)
    else if n = 0 ∨ 0x8000000000000000 < n then some (.float (-(UInt64.ofNat n).toFloat))
    else some (.integer (-n))
  else
    let (significand, takenFraction) := takeDigits n 0 (p.fraction.getD [])
    let e := p.exponent.getD 0
    if significand ≠ 0 ∧ maxExponent < e then none
    else if maxExponent < e.natAbs then floatOf p.negative 0 0
    else floatOf p.negative significand ((dropped : Int) - takenFraction + e)

/-- A broken number: where the text ends, a reader misses the rest, while one
that skips finds the number malformed. -/
def brokenNumber (rest : List Char) : Token :=
  .broken false (if rest.isEmpty then .cutShort else .malformed) .malformed

/-- Whether an exponent is negative, and what follows its sign. -/
def afterSign : List Char → Bool × List Char
  | '+' :: rest => (false, rest)
  | '-' :: rest => (true, rest)
  | rest => (false, rest)

/-- The size of an exponent.  One beyond any use is not added up further. -/
def exponentSize (digits : List Char) : Nat :=
  digits.foldl (fun n c => if n ≤ maxExponent then n * 10 + (c.toNat - '0'.toNat) else n) 0

/-- The exponent of a number and what follows it. -/
def exponentOf (p : NumberPieces) (rest : List Char) : Token × List Char :=
  let signed := afterSign rest
  let exponent := signed.2.takeWhile isDigit
  if exponent.isEmpty then (brokenNumber signed.2, [])
  else
    let size : Int := exponentSize exponent
    (.number { p with exponent := some (if signed.1 then -size else size) }.value,
      signed.2.dropWhile isDigit)

/-- What follows the digits before and after the point. -/
def afterDigits (p : NumberPieces) : List Char → Token × List Char
  | mark :: rest =>
    if mark = 'e' ∨ mark = 'E' then exponentOf p rest else (.number p.value, mark :: rest)
  | [] => (.number p.value, [])

/-- A number without its sign: one zero, or digits that do not start with one. -/
def unsignedNumber (negative : Bool) (text : List Char) : Token × List Char :=
  let whole := text.takeWhile isDigit
  if whole.isEmpty then (brokenNumber text, [])
  else if whole.head? = some '0' ∧ 1 < whole.length then
    (.broken false .malformed .malformed, [])
  else match text.dropWhile isDigit with
    | '.' :: rest =>
      let fraction := rest.takeWhile isDigit
      if fraction.isEmpty then (brokenNumber rest, [])
      else afterDigits ⟨negative, whole, some fraction, none⟩ (rest.dropWhile isDigit)
    | rest => afterDigits ⟨negative, whole, none, none⟩ rest

/-! ### Quoted texts -/

/-- The value of a hexadecimal digit of either case. -/
def hexValue? (c : Char) : Option Nat :=
  if '0' ≤ c ∧ c ≤ '9' then some (c.toNat - '0'.toNat)
  else if 'a' ≤ c ∧ c ≤ 'f' then some (c.toNat - 'a'.toNat + 10)
  else if 'A' ≤ c ∧ c ≤ 'F' then some (c.toNat - 'A'.toNat + 10)
  else none

/-- The value of four hexadecimal digits. -/
def hexUnit? (a b c d : Char) : Option Nat := do
  let a ← hexValue? a
  let b ← hexValue? b
  let c ← hexValue? c
  let d ← hexValue? d
  some (((a * 16 + b) * 16 + c) * 16 + d)

/-- A quoted text in the middle of being read. -/
structure Quoted where
  /-- The characters so far, the last one first. -/
  done : List Char
  /-- The first half of a surrogate pair whose second half must come next. -/
  half : Option Nat
  /-- Whether no half of a surrogate pair stood alone so far. -/
  paired : Bool

namespace Quoted

/-- Nothing read yet. -/
def start : Quoted := ⟨[], none, true⟩

/-- Adds a character that is no half of a surrogate pair. -/
def add (q : Quoted) (c : Char) : Quoted :=
  ⟨c :: q.done, none, q.paired && q.half.isNone⟩

/-- Adds the 16-bit unit of an escape: a character, or half of a pair. -/
def addUnit (q : Quoted) (unit : Nat) : Quoted :=
  if 0xD800 ≤ unit ∧ unit < 0xDC00 then ⟨q.done, some unit, q.paired && q.half.isNone⟩
  else if 0xDC00 ≤ unit ∧ unit < 0xE000 then
    match q.half with
    | some first =>
      ⟨Char.ofNat ((first - 0xD800) * 0x400 + (unit - 0xDC00) + 0x10000) :: q.done, none, q.paired⟩
    | none => ⟨q.done, none, false⟩
  else q.add (Char.ofNat unit)

/-- The text at its closing quote. -/
def close (q : Quoted) : Token :=
  .text (if q.paired && q.half.isNone then some (String.ofList q.done.reverse) else none)

/-- The text is broken off.  Half of a pair that stood alone before is what a
reader finds first. -/
def breakOff (q : Quoted) (b : Breach) : Token :=
  .broken true (if q.paired then b else .malformed) b

/-- The text holds something that may not stand in it; half of a pair left
alone by it makes no difference. -/
def spoil (q : Quoted) : Token := q.breakOff .malformed

end Quoted

/-- The number of bytes of a text, counted only as far as four. -/
def atLeastFourBytes (text : List Char) : Bool :=
  4 ≤ (text.take 4).foldl (fun n c => n + c.utf8Size) 0

/-- A character after a backslash that stands for one character. -/
def simpleEscape? (c : Char) : Option Char :=
  if c = '"' then some '"'
  else if c = '\\' then some '\\'
  else if c = '/' then some '/'
  else if c = 'b' then some '\x08'
  else if c = 'f' then some '\x0c'
  else if c = 'n' then some '\n'
  else if c = 'r' then some '\r'
  else if c = 't' then some '\t'
  else none

/-- A quoted text after its opening quote.  Control characters may not stand in
it, and a `u` after a backslash needs four hexadecimal digits. -/
def quotedText (q : Quoted) : List Char → Token × List Char
  | [] => (q.breakOff .ended, [])
  | '"' :: rest => (q.close, rest)
  | ['\\'] => (q.breakOff .ended, [])
  | '\\' :: 'u' :: a :: b :: c :: d :: rest =>
    match hexUnit? a b c d with
    | some unit => quotedText (q.addUnit unit) rest
    | none => (q.spoil, [])
  | '\\' :: 'u' :: rest => (q.breakOff (if atLeastFourBytes rest then .malformed else .ended), [])
  | '\\' :: c :: rest =>
    match simpleEscape? c with
    | some c => quotedText (q.add c) rest
    | none => (q.spoil, [])
  | c :: rest => if c.toNat < 32 then (q.spoil, []) else quotedText (q.add c) rest

/-! ### Words -/

/-- What must follow the first letter of a literal. -/
def literal (token : Token) : (letters text : List Char) → Token × List Char
  | [], rest => (token, rest)
  | _ :: _, [] => (.broken false .cutShort .cutShort, [])
  | letter :: letters, c :: rest =>
    if letter = c then literal token letters rest else (.broken false .malformed .malformed, [])

/-- Whether a character may stand between the words of a JSON text. -/
def isSpace (c : Char) : Bool := c == ' ' || c == '\n' || c == '\t' || c == '\r'

/-- The word that starts with a given character, and what follows it.  Nothing
follows a broken word. -/
def word (c : Char) (rest : List Char) : Token × List Char :=
  if c = '[' then (.openArray, rest)
  else if c = ']' then (.closeArray, rest)
  else if c = '{' then (.openObject, rest)
  else if c = '}' then (.closeObject, rest)
  else if c = ',' then (.comma, rest)
  else if c = ':' then (.colon, rest)
  else if c = '"' then quotedText .start rest
  else if c = 'n' then literal .null ['u', 'l', 'l'] rest
  else if c = 't' then literal (.bool true) ['r', 'u', 'e'] rest
  else if c = 'f' then literal (.bool false) ['a', 'l', 's', 'e'] rest
  else if c = '-' then unsignedNumber true rest
  else if isDigit c then unsignedNumber false (c :: rest)
  else (.broken false .malformed .malformed, [])

/-! ### What is left is shorter -/

theorem length_dropWhile_le {α : Type} (p : α → Bool) (l : List α) :
    (l.dropWhile p).length ≤ l.length := by
  induction l with
  | nil => simp
  | cons a l ih =>
    simp only [List.dropWhile_cons]
    split
    · exact Nat.le_succ_of_le ih
    · exact Nat.le_refl _

theorem length_literal_le (token : Token) (letters text : List Char) :
    (literal token letters text).2.length ≤ text.length := by
  fun_induction literal token letters text with
  | case1 => exact Nat.le_refl _
  | case2 => simp
  | case3 letters c rest ih => exact Nat.le_succ_of_le ih
  | case4 => simp

theorem length_quotedText_le (q : Quoted) (text : List Char) :
    (quotedText q text).2.length ≤ text.length := by
  fun_induction quotedText q text <;> simp_all <;> omega

/-- The sign of an exponent is at most one character. -/
theorem length_afterSign_le (text : List Char) : (afterSign text).2.length ≤ text.length := by
  unfold afterSign
  split <;> simp

theorem length_exponentOf_le (p : NumberPieces) (text : List Char) :
    (exponentOf p text).2.length ≤ text.length := by
  unfold exponentOf
  dsimp only
  split
  · simp
  · exact Nat.le_trans (length_dropWhile_le _ _) (length_afterSign_le _)

theorem length_afterDigits_le (p : NumberPieces) (text : List Char) :
    (afterDigits p text).2.length ≤ text.length := by
  unfold afterDigits
  split
  · split
    · exact Nat.le_succ_of_le (length_exponentOf_le _ _)
    · exact Nat.le_refl _
  · simp

/-- A number leaves no more than what follows its first run of digits. -/
theorem length_unsignedNumber_le (negative : Bool) (text : List Char) :
    (unsignedNumber negative text).2.length ≤ (text.dropWhile isDigit).length := by
  unfold unsignedNumber
  dsimp only
  split
  · simp
  split
  · simp
  split
  · rename_i rest heq
    rw [heq]
    split
    · simp
    · refine Nat.le_trans (length_afterDigits_le _ _) ?_
      exact Nat.le_succ_of_le (length_dropWhile_le _ _)
  · exact length_afterDigits_le _ _

/-- A bound on what is left holds of a choice if it holds of both sides. -/
theorem dite_le {p : Prop} [Decidable p] {a b : Token × List Char} {n : Nat}
    (ha : p → a.2.length ≤ n) (hb : ¬p → b.2.length ≤ n) : (if p then a else b).2.length ≤ n := by
  by_cases h : p
  · simpa [h] using ha h
  · simpa [h] using hb h

/-- What follows a word is no longer than what follows its first character. -/
theorem length_word_le (c : Char) (rest : List Char) :
    (word c rest).2.length ≤ rest.length := by
  have hn (b : Bool) : (unsignedNumber b rest).2.length ≤ rest.length :=
    Nat.le_trans (length_unsignedNumber_le _ _) (length_dropWhile_le _ _)
  have hd (h : isDigit c = true) : (unsignedNumber false (c :: rest)).2.length ≤ rest.length := by
    refine Nat.le_trans (length_unsignedNumber_le _ _) ?_
    rw [List.dropWhile_cons_of_pos h]
    exact length_dropWhile_le _ _
  unfold word
  iterate 6 refine dite_le (fun _ => Nat.le_refl _) fun _ => ?_
  refine dite_le (fun _ => length_quotedText_le _ _) fun _ => ?_
  iterate 3 refine dite_le (fun _ => length_literal_le _ _ _) fun _ => ?_
  refine dite_le (fun _ => hn true) fun _ => ?_
  exact dite_le hd fun _ => Nat.zero_le _

/-- The words that follow those already cut off, which are kept in reverse. -/
def tokensAfter (done : List Token) (text : List Char) : List Token :=
  match _h : text.dropWhile isSpace with
  | [] => done.reverse
  | c :: rest => tokensAfter ((word c rest).1 :: done) (word c rest).2
termination_by text.length
decreasing_by
  have h₁ := length_dropWhile_le isSpace text
  have h₂ := length_word_le c rest
  rw [_h] at h₁
  simp only [List.length_cons] at h₁
  omega

end Token

/-- The words of a JSON text, up to the first that is broken. -/
def tokens (text : List Char) : List Token := Token.tokensAfter [] text

end Timepiece
