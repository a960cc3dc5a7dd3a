import Mathlib
import Timepiece.Json.Value
import Timepiece.Proofs.Text.Digits
import Timepiece.Text.Blank

/-!
# Integers that are read

An integer is spelled by an optional sign and one or more digits.  It has many spellings: zeros may
stand in front, and a plus sign.  A text is read as an integer if and only if it spells it and the
integer has the room that there is.  The text that is written for an integer is one of its
spellings, and has no blanks.

## Main definitions

* `Text.Spells` — a text spells an integer.

## Main results

* `Text.signed64?_eq_some_iff` — **a text is read as the integer that it spells**.
* `Text.spells_integerText`, `Text.trim_integerText` — what is written for an integer.
-/

namespace Timepiece.Text

/-! ### Spellings -/

/-- A text spells an integer: there are digits that make it up, with a sign in front of them or
without one. -/
inductive Spells : List Char → Int → Prop
  | unsigned {digits : List Char} : digits ≠ [] → (∀ c ∈ digits, c.isDigit = true) →
    Spells digits (Nat.ofDigitChars 10 digits 0)
  | plus {digits : List Char} : digits ≠ [] → (∀ c ∈ digits, c.isDigit = true) →
    Spells ('+' :: digits) (Nat.ofDigitChars 10 digits 0)
  | minus {digits : List Char} : digits ≠ [] → (∀ c ∈ digits, c.isDigit = true) →
    Spells ('-' :: digits) (-(Nat.ofDigitChars 10 digits 0 : Int))

variable {bound n m : Nat} {digits text : List Char} {i : Int}

/-- A character is a digit if and only if it has a value. -/
theorem digitValue?_eq_some_iff {c : Char} {d : Nat} :
    digitValue? c = some d ↔ c.isDigit = true ∧ d = c.toNat - '0'.toNat := by
  unfold digitValue?
  by_cases hdigit : '0' ≤ c ∧ c ≤ '9'
  · have hisDigit : c.isDigit = true := by simpa [Char.isDigit, Char.le_def] using hdigit
    rw [if_pos hdigit]
    simp [hisDigit, eq_comm]
  · have hisDigit : c.isDigit = false := by
      rw [Bool.eq_false_iff]
      intro h
      exact hdigit (by simpa [Char.isDigit, Char.le_def] using h)
    rw [if_neg hdigit]
    simp [hisDigit]

/-- Digits are read as the number that they make up, and nothing else is read. -/
theorem readDigits?_eq_some_iff (hn : n < bound) : readDigits? bound n digits = some m ↔
    (∀ c ∈ digits, c.isDigit = true) ∧ m = Nat.ofDigitChars 10 digits n ∧ m < bound := by
  constructor
  · intro h
    induction digits generalizing n with
    | nil =>
      obtain rfl := Option.some.inj h
      exact ⟨fun _ hmem => absurd hmem List.not_mem_nil, rfl, hn⟩
    | cons c rest ih =>
      unfold readDigits? at h
      split at h
      · next d hd =>
        obtain ⟨hdigit, rfl⟩ := digitValue?_eq_some_iff.1 hd
        split at h
        · next hlt =>
          obtain ⟨hrest, rfl, hbound⟩ := ih hlt h
          refine ⟨List.forall_mem_cons.2 ⟨hdigit, hrest⟩, ?_, hbound⟩
          rw [Nat.ofDigitChars_cons, Nat.mul_comm]
        · exact absurd h (by simp)
      · exact absurd h (by simp)
  · rintro ⟨hdigits, rfl, hbound⟩
    exact readDigits?_eq hdigits hbound

theorem naturalBelow?_eq_some_iff (hbound : 0 < bound) : naturalBelow? bound digits = some m ↔
    digits ≠ [] ∧ (∀ c ∈ digits, c.isDigit = true) ∧ m = Nat.ofDigitChars 10 digits 0 ∧
      m < bound := by
  unfold naturalBelow?
  cases digits with
  | nil => simp
  | cons c rest =>
    rw [List.isEmpty_cons, if_neg Bool.false_ne_true, readDigits?_eq_some_iff hbound]
    simp

/-- A sign is no digit. -/
theorem ne_of_isDigit {c sign : Char} (h : c.isDigit = true) (hsign : sign.isDigit = false) :
    c ≠ sign := by
  rintro rfl
  rw [h] at hsign
  exact absurd hsign (by simp)

theorem exists_of_lift {number : Option Nat} (h : (do let n ← number; pure (n : Int)) = some i) :
    ∃ n, number = some n ∧ (n : Int) = i := by
  cases number with
  | none => exact absurd h (by simp)
  | some n => exact ⟨n, rfl, Option.some.inj h⟩

/-- A text is read as the integer that it spells, if that is small enough. -/
theorem integerBelow?_eq_some_iff (hbound : 0 < bound) :
    integerBelow? bound text = some i ↔ Spells text i ∧ i.natAbs < bound := by
  constructor
  · intro h
    unfold integerBelow? at h
    split at h
    all_goals
      obtain ⟨_, hlift, rfl⟩ := Option.map_eq_some_iff.1 h
      obtain ⟨n, hn, rfl⟩ := exists_of_lift hlift
      obtain ⟨hne, hdigits, rfl, hlt⟩ := (naturalBelow?_eq_some_iff hbound).1 hn
    · exact ⟨.minus hne hdigits, by simpa using hlt⟩
    · exact ⟨.plus hne hdigits, by simpa using hlt⟩
    · exact ⟨.unsigned hne hdigits, by simpa using hlt⟩
  · rintro ⟨hspells, hlt⟩
    cases hspells with
    | unsigned hne hdigits =>
      have hnatural := (naturalBelow?_eq_some_iff hbound).2 ⟨hne, hdigits, rfl, by simpa using hlt⟩
      cases text with
      | nil => exact absurd rfl hne
      | cons c rest =>
        have hc := hdigits c List.mem_cons_self
        -- the first digit is taken for no sign
        rw [integerBelow?, hnatural]
        · rfl
        · intro text heq
          exact ne_of_isDigit hc (by decide) (List.cons.inj heq).1
        · intro text heq
          exact ne_of_isDigit hc (by decide) (List.cons.inj heq).1
    | plus hne hdigits =>
      have hnatural := (naturalBelow?_eq_some_iff hbound).2 ⟨hne, hdigits, rfl, by simpa using hlt⟩
      rw [integerBelow?, hnatural]
      rfl
    | minus hne hdigits =>
      have hnatural := (naturalBelow?_eq_some_iff hbound).2 ⟨hne, hdigits, rfl, by simpa using hlt⟩
      rw [integerBelow?, hnatural]
      rfl

/-- **A text is read as the integer that it spells**, if that has 64 bits. -/
theorem signed64?_eq_some_iff :
    signed64? text = some i ↔ Spells text i ∧ inSigned64 i = true := by
  unfold signed64?
  rw [Option.filter_eq_some_iff, integerBelow?_eq_some_iff (by decide), and_assoc]
  refine and_congr_right fun _ => and_iff_right_of_imp fun hin => ?_
  simp only [inSigned64, Bool.and_eq_true, decide_eq_true_eq] at hin
  have hsize : UInt64.size = 0x10000000000000000 := rfl
  omega

/-- A text spells one integer at most. -/
theorem Spells.unique {j : Int} (h : Spells text i) (h' : Spells text j) : i = j := by
  have hbound : 0 < max i.natAbs j.natAbs + 1 := Nat.succ_pos _
  have hi := (integerBelow?_eq_some_iff hbound).2 ⟨h, by omega⟩
  have hj := (integerBelow?_eq_some_iff hbound).2 ⟨h', by omega⟩
  exact Option.some.inj (hi.symm.trans hj)

/-! ### What is written -/

theorem isDigit_of_mem_toDigits {c : Char} (h : c ∈ Nat.toDigits 10 n) : c.isDigit = true :=
  Nat.isDigit_of_mem_toDigits (by decide) (by decide) h

/-- What is written for an integer spells it. -/
theorem spells_integerText (i : Int) : Spells (Json.integerText i) i := by
  have hdigits : ∀ c ∈ Nat.toDigits 10 i.natAbs, c.isDigit = true :=
    fun c => isDigit_of_mem_toDigits
  have hvalue := Nat.ofDigitChars_ten_toDigits (n := i.natAbs)
  unfold Json.integerText
  split
  · next hneg =>
    have hspells := Spells.minus Nat.toDigits_ne_nil hdigits
    rw [hvalue, show -(i.natAbs : Int) = i by omega] at hspells
    exact hspells
  · next hpos =>
    have hspells := Spells.unsigned Nat.toDigits_ne_nil hdigits
    rw [hvalue, show (i.natAbs : Int) = i by omega] at hspells
    exact hspells

theorem dropWhile_isBlank (h : ∀ c ∈ text, isBlank c = false) :
    text.dropWhile isBlank = text := by
  cases text with
  | nil => rfl
  | cons c rest => rw [List.dropWhile_cons, if_neg (by simp [h c List.mem_cons_self])]

/-- A text without blanks is trimmed to itself. -/
theorem trim_eq_self (h : ∀ c ∈ text, isBlank c = false) : trim text = text := by
  have hback : ∀ c ∈ text.reverse, isBlank c = false := fun c hc => h c (List.mem_reverse.1 hc)
  rw [trim, dropWhile_isBlank h, dropWhile_isBlank hback, List.reverse_reverse]

theorem isBlank_of_isDigit {c : Char} (h : c.isDigit = true) : isBlank c = false := by
  have hlow : 48 ≤ c.toNat ∧ c.toNat ≤ 57 := by
    simpa [Char.isDigit, UInt32.le_iff_toNat_le] using h
  rw [isBlank, List.any_eq_false]
  intro range hmem
  simp only [Bool.and_eq_true, decide_eq_true_eq, not_and, Nat.not_le]
  -- no range of blanks meets the digits
  have hapart : ∀ range ∈ blankRanges, range.2 < 48 ∨ 57 < range.1 := by decide
  have hrange := hapart range hmem
  omega

theorem trim_integerText (i : Int) : trim (Json.integerText i) = Json.integerText i := by
  refine trim_eq_self fun c hmem => ?_
  unfold Json.integerText at hmem
  split at hmem
  · rcases List.mem_cons.1 hmem with rfl | hmem
    · decide
    · exact isBlank_of_isDigit (isDigit_of_mem_toDigits hmem)
  · exact isBlank_of_isDigit (isDigit_of_mem_toDigits hmem)

end Timepiece.Text
