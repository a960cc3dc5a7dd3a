import Mathlib
import Timepiece.Text.Integer

/-!
# Digits that are read

A row of ASCII digits is read as the number that it makes up in base ten, as long as the number
stays below the bound of the reader.  Leading zeros make no difference.

## Main results

* `Text.readDigits?_eq` — **digits are read as the number that they make up.**
* `Text.unsigned32?_toDigits` — the digits of a number are read as the number.
* `Text.ofDigitChars_nines` — a row of nines is one less than a power of ten.
-/

namespace Timepiece.Text

/-- What digits make up grows with every digit. -/
theorem le_ofDigitChars (digits : List Char) (n : Nat) : n ≤ Nat.ofDigitChars 10 digits n := by
  rw [Nat.ofDigitChars_eq_ofDigitChars_zero]
  exact Nat.le_add_right_of_le (Nat.le_mul_of_pos_left n (Nat.pow_pos (by decide)))

/-- Digits are read as the number that they make up, if it is below the bound. -/
theorem readDigits?_eq {bound n : Nat} {digits : List Char}
    (hdigits : ∀ c ∈ digits, c.isDigit = true)
    (hbound : Nat.ofDigitChars 10 digits n < bound) :
    readDigits? bound n digits = some (Nat.ofDigitChars 10 digits n) := by
  induction digits generalizing n with
  | nil => rfl
  | cons c rest ih =>
    obtain ⟨hc, hrest⟩ := List.forall_mem_cons.1 hdigits
    have hvalue : digitValue? c = some (c.toNat - '0'.toNat) := by
      rw [digitValue?, if_pos]
      simpa [Char.isDigit, Char.le_def] using hc
    rw [Nat.ofDigitChars_cons, Nat.mul_comm] at hbound ⊢
    have hnext := Nat.lt_of_le_of_lt (le_ofDigitChars rest _) hbound
    rw [readDigits?, hvalue]
    dsimp only
    rw [if_pos hnext, ih hrest hbound]

theorem unsigned32?_toDigits {n : Nat} (h : n < UInt32.size) :
    unsigned32? (Nat.toDigits 10 n) = some (UInt32.ofNat n) := by
  have hdigits : ∀ c ∈ Nat.toDigits 10 n, c.isDigit = true := fun c hc =>
    Nat.isDigit_of_mem_toDigits (by decide) (by decide) hc
  have hread : readDigits? UInt32.size 0 (Nat.toDigits 10 n) = some n := by
    rw [readDigits?_eq hdigits, Nat.ofDigitChars_ten_toDigits]
    rwa [Nat.ofDigitChars_ten_toDigits]
  cases htext : Nat.toDigits 10 n with
  | nil => exact absurd htext Nat.toDigits_ne_nil
  | cons c rest =>
    rw [htext] at hdigits hread
    have hc := hdigits c List.mem_cons_self
    -- a digit is no sign
    have hminus : c ≠ '-' := by
      rintro rfl
      cases hc
    have hplus : c ≠ '+' := by
      rintro rfl
      cases hc
    have hnatural : naturalBelow? UInt32.size (c :: rest) = some n := hread
    have hinteger : integerBelow? UInt32.size (c :: rest) = some (n : Int) := by
      rw [integerBelow?, hnatural]
      · rfl
      · intro text heq
        exact hminus (List.cons.inj heq).1
      · intro text heq
        exact hplus (List.cons.inj heq).1
    rw [unsigned32?, hinteger]
    · rfl
    · intro text heq
      exact hminus (List.cons.inj heq).1

/-- A row of nines behind a number is one less than what as many zeros make of the next one. -/
theorem ofDigitChars_nines (count n : Nat) :
    Nat.ofDigitChars 10 (List.replicate count '9') n = (n + 1) * 10 ^ count - 1 := by
  induction count generalizing n with
  | zero => simp
  | succ count ih =>
    have hnine : '9'.toNat - '0'.toNat = 9 := by decide
    rw [List.replicate_succ, Nat.ofDigitChars_cons, hnine, ih, Nat.pow_succ']
    congr 1
    ring

end Timepiece.Text
