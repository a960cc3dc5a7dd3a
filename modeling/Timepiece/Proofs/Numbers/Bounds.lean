import Mathlib
import Timepiece.Proofs.Numbers.Ranges
import Timepiece.Proofs.Text.Digits

/-!
# How ranges are written

A range is written as `0-` and its bound: one to five nines, or one to four nines led by a one,
and behind a point one or two more nines.  Nothing else describes a range, and every such text does.
What the program writes of a range is told by the digits alone: how many there are, whether they
are all nines, and how many bytes the number takes that they make up without the point.

## Main definitions

* `Whole`, `Spells` — the texts that describe a range, by their digits before and behind the point.
* `NumberRange.Measures` — what a range has to be that has given digits.

## Main results

* `spells_iff` — the texts of the grammar are those of the ranges that can be drawn.
* `NumberRange.ofText?_eq_some_iff` — **a text is read as a range if and only if it is the text of
  the range.**
* `NumberRange.key_injective` — ranges that can be drawn have different keys.
* `NumberRange.read_exactly` — **ranges are read by the grammar and measured by their digits.**
-/

namespace Timepiece

/-! ### The grammar -/

/-- The digits before the point: one to five nines, or one to four nines led by a one. -/
inductive Whole : List Char → Prop
  | nines {count : Nat} : 1 ≤ count → count ≤ 5 → Whole (List.replicate count '9')
  | led {count : Nat} : 1 ≤ count → count ≤ 4 → Whole ('1' :: List.replicate count '9')

/-- The text of a range with some digits before the point, and one or two nines behind it.  If
there are none, there is no point either. -/
inductive Spells : (whole fraction text : List Char) → Prop
  | plain {whole : List Char} : Whole whole → Spells whole [] ('0' :: '-' :: whole)
  | pointed {whole : List Char} {count : Nat} : Whole whole → 1 ≤ count → count ≤ 2 →
    Spells whole (List.replicate count '9')
      ('0' :: '-' :: whole ++ '.' :: List.replicate count '9')

namespace NumberRange

variable {range other : NumberRange} {whole fraction text : List Char}

/-- The digits of a range before the point. -/
def wholeDigits (range : NumberRange) : List Char :=
  (if range.leadingOne then ['1'] else []) ++ List.replicate range.nines '9'

/-- The digits of a range behind the point. -/
def fractionDigits (range : NumberRange) : List Char := List.replicate range.decimals '9'

theorem digits_eq (range : NumberRange) : range.digits = range.wholeDigits ++
    if range.decimals = 0 then [] else '.' :: range.fractionDigits := rfl

/-- A range with at least one digit is written by the grammar. -/
theorem whole_wholeDigits (h : range.Drawable) (hsome : range.nines ≠ 0) :
    Whole range.wholeDigits := by
  have hpos : 1 ≤ range.nines := Nat.one_le_iff_ne_zero.2 hsome
  unfold wholeDigits
  by_cases hled : range.leadingOne = true
  · rw [if_pos hled]
    exact .led hpos (h.led hled)
  · rw [if_neg hled]
    exact .nines hpos h.nines

theorem exists_of_whole (h : Whole whole) : ∃ nines led, nines ≠ 0 ∧ nines ≤ 5 ∧
    (led = true → nines ≤ 4) ∧ whole = wholeDigits ⟨nines, led, 0⟩ := by
  cases h with
  | @nines count hpos hle =>
    exact ⟨count, false, Nat.one_le_iff_ne_zero.1 hpos, hle, fun h => absurd h (by decide), rfl⟩
  | @led count hpos hle =>
    exact ⟨count, true, Nat.one_le_iff_ne_zero.1 hpos, hle.trans (by decide), fun _ => hle, rfl⟩

end NumberRange

open NumberRange

/-- The texts of the grammar are those of the ranges that can be drawn and have a digit. -/
theorem spells_iff {whole fraction text : List Char} : Spells whole fraction text ↔
    ∃ range : NumberRange, range.Drawable ∧ range.nines ≠ 0 ∧ whole = range.wholeDigits ∧
      fraction = range.fractionDigits ∧ text = '0' :: '-' :: range.digits := by
  constructor
  · intro h
    cases h with
    | plain hwhole =>
      obtain ⟨nines, led, hsome, hnines, hled, rfl⟩ := exists_of_whole hwhole
      refine ⟨⟨nines, led, 0⟩, ⟨hnines, hled, Nat.zero_le _⟩, hsome, rfl, rfl, ?_⟩
      rw [digits_eq, if_pos rfl, List.append_nil]
    | @pointed count hwhole hpos hle =>
      obtain ⟨nines, led, hsome, hnines, hled, rfl⟩ := exists_of_whole hwhole
      refine ⟨⟨nines, led, count⟩, ⟨hnines, hled, hle⟩, hsome, rfl, rfl, ?_⟩
      rw [digits_eq, if_neg (Nat.one_le_iff_ne_zero.1 hpos)]
      rfl
  · rintro ⟨range, hdrawable, hsome, rfl, rfl, rfl⟩
    have hwhole := whole_wholeDigits hdrawable hsome
    rw [digits_eq]
    by_cases hnone : range.decimals = 0
    · rw [if_pos hnone, List.append_nil, fractionDigits, hnone]
      exact .plain hwhole
    · rw [if_neg hnone]
      exact .pointed hwhole (Nat.one_le_iff_ne_zero.2 hnone) hdrawable.decimals

namespace NumberRange

variable {range other : NumberRange} {whole fraction : List Char} {text : String}

/-! ### Reading -/

theorem nines_ne_zero_of_wholeOfDigits? {nines : Nat} {led : Bool}
    (h : wholeOfDigits? whole = some (nines, led)) : nines ≠ 0 := by
  have hlength {rest : List Char} (hrest : (!rest.isEmpty) = true) : rest.length ≠ 0 := by
    simpa using hrest
  unfold wholeOfDigits? at h
  split at h
  all_goals
    split at h
    · next hrest =>
      obtain ⟨rfl, -⟩ := Prod.mk.inj (Option.some.inj h)
      simp only [Bool.and_eq_true] at hrest
      exact hlength hrest.1.1
    · cases h

theorem nines_ne_zero_of_ofText? (h : ofText? text = some range) : range.nines ≠ 0 := by
  unfold ofText? at h
  split at h
  · obtain ⟨⟨nines, led⟩, hwhole, h⟩ := Option.bind_eq_some_iff.1 h
    have hnines := nines_ne_zero_of_wholeOfDigits? hwhole
    dsimp only at h
    split at h
    · obtain rfl := Option.some.inj h
      exact hnines
    · obtain ⟨decimals, -, h⟩ := Option.bind_eq_some_iff.1 h
      obtain rfl := Option.some.inj h
      exact hnines
  · cases h

theorem wholeOfDigits?_wholeDigits (h : range.Drawable) (hsome : range.nines ≠ 0) :
    wholeOfDigits? range.wholeDigits = some (range.nines, range.leadingOne) := by
  obtain ⟨count, hcount⟩ := Nat.exists_eq_add_one_of_ne_zero hsome
  have hnines := h.nines
  have hled := h.led
  unfold wholeDigits
  rw [hcount, List.replicate_succ]
  cases hone : range.leadingOne with
  | true =>
    have hle : count + 1 ≤ 4 := hcount ▸ hled hone
    simp [wholeOfDigits?, hle]
  | false =>
    have hle : count + 1 ≤ 5 := hcount ▸ hnines
    simp [wholeOfDigits?, hle]

theorem decimalsOfDigits?_fractionDigits (h : range.Drawable) (hsome : range.decimals ≠ 0) :
    decimalsOfDigits? range.fractionDigits = some range.decimals := by
  have hle : range.decimals ≤ 2 := h.decimals
  simp [decimalsOfDigits?, fractionDigits, hsome, hle]

theorem ne_point_of_mem_wholeDigits {c : Char} (h : c ∈ range.wholeDigits) :
    (c != '.') = true := by
  unfold wholeDigits at h
  rcases List.mem_append.1 h with hone | hnine
  · split at hone
    · rw [List.mem_singleton.1 hone]
      decide
    · exact absurd hone List.not_mem_nil
  · rw [(List.mem_replicate.1 hnine).2]
    decide

/-- The bound of a range that can be drawn is read back. -/
theorem ofBound?_digits (h : range.Drawable) (hsome : range.nines ≠ 0) :
    ofBound? range.digits = some range := by
  have hpoint : ∀ c ∈ range.wholeDigits, (c != '.') = true := fun c hc =>
    ne_point_of_mem_wholeDigits hc
  have hwhole := wholeOfDigits?_wholeDigits h hsome
  rw [digits_eq]
  by_cases hnone : range.decimals = 0
  · rw [if_pos hnone]
    unfold ofBound?
    rw [List.takeWhile_append_of_pos hpoint, List.dropWhile_append_of_pos hpoint]
    simp [hwhole, ← hnone]
  · have hfraction := decimalsOfDigits?_fractionDigits h hnone
    rw [if_neg hnone]
    unfold ofBound?
    rw [List.takeWhile_append_of_pos hpoint, List.dropWhile_append_of_pos hpoint]
    simp [hwhole, hfraction]

/-- **A text is read as a range if and only if it is the text of the range**, and the range can be
drawn and has a digit. -/
theorem ofText?_eq_some_iff : ofText? text = some range ↔
    range.Drawable ∧ range.nines ≠ 0 ∧ text.toList = '0' :: '-' :: range.digits := by
  constructor
  · intro h
    obtain ⟨htext, hdrawable⟩ := ofText?_eq_some h
    exact ⟨hdrawable, nines_ne_zero_of_ofText? h, htext⟩
  · rintro ⟨hdrawable, hsome, htext⟩
    unfold ofText?
    rw [htext]
    exact ofBound?_digits hdrawable hsome

/-! ### Measuring -/

theorem length_wholeDigits (range : NumberRange) :
    range.wholeDigits.length = range.nines + if range.leadingOne then 1 else 0 := by
  unfold wholeDigits
  split
  · simp
  · simp

theorem forall_mem_wholeDigits (range : NumberRange) :
    (∀ c ∈ range.wholeDigits, c = '9') ↔ range.leadingOne = false := by
  unfold wholeDigits
  cases range.leadingOne with
  | true => simp
  | false => simp

/-- The digits of a range make up its bound. -/
theorem ofDigitChars_digits (range : NumberRange) :
    Nat.ofDigitChars 10 (range.wholeDigits ++ range.fractionDigits) 0 = range.bound := by
  have hone : Nat.ofDigitChars 10 ['1'] 0 = 1 := by decide
  rw [wholeDigits, fractionDigits, List.append_assoc, List.replicate_append_replicate, bound]
  by_cases hled : range.leadingOne = true
  · rw [if_pos hled, if_pos hled, Nat.ofDigitChars_append, hone, Text.ofDigitChars_nines]
    rfl
  · rw [if_neg hled, if_neg hled, List.nil_append, Text.ofDigitChars_nines]
    rfl

theorem isDigit_of_mem_digits {c : Char} (h : c ∈ range.wholeDigits ++ range.fractionDigits) :
    c.isDigit = true := by
  have hnine {count : Nat} (hc : c ∈ List.replicate count '9') : c.isDigit = true := by
    rw [(List.mem_replicate.1 hc).2]
    decide
  rcases List.mem_append.1 h with hwhole | hfraction
  · rcases List.mem_append.1 hwhole with hone | hnines
    · split at hone
      · rw [List.mem_singleton.1 hone]
        decide
      · exact absurd hone List.not_mem_nil
    · exact hnine hnines
  · exact hnine hfraction

namespace Drawable

theorem digitCode_le (h : range.Drawable) : range.digitCode ≤ 9 := by
  have hnines := h.nines
  unfold digitCode
  split
  · next hled =>
    have := h.led hled
    omega
  · omega

/-- The two halves of the key. -/
theorem toNat_key (h : range.Drawable) :
    range.key.toNat = range.digitCode * 16 + range.decimals := by
  have hcode := h.digitCode_le
  have hdecimals : range.decimals ≤ 2 := h.decimals
  have hlt : range.digitCode * 16 + range.decimals < 256 := by omega
  rw [key, UInt8.toNat_ofNat', Nat.mod_eq_of_lt hlt]

/-- Sixty-four bits hold every bound. -/
theorem bound_lt_size (h : range.Drawable) : range.bound < UInt64.size := by
  refine h.bound_lt.trans_le ?_
  have hpow : Nat.pow 10 range.decimals ≤ Nat.pow 10 maxDecimals :=
    Nat.pow_le_pow_right (by decide) h.decimals
  exact (Nat.mul_le_mul_left 100000 hpow).trans (by decide)

end Drawable

/-- Nines alone have the odd codes, and only they may be padded. -/
theorem odd_digitCode_iff (hsome : range.nines ≠ 0) :
    range.digitCode % 2 = 1 ↔ range.allowsPadding = true := by
  unfold digitCode allowsPadding
  cases range.leadingOne with
  | true => simp
  | false =>
    simp only [Bool.false_eq_true, if_false, Bool.not_false, iff_true]
    omega

/-- Ranges that can be drawn have different keys. -/
theorem key_injective (h : range.Drawable) (hsome : range.nines ≠ 0) (hother : other.Drawable)
    (hothers : other.nines ≠ 0) (hkey : range.key = other.key) : range = other := by
  have hbyte : range.digitCode * 16 + range.decimals = other.digitCode * 16 + other.decimals := by
    rw [← h.toNat_key, ← hother.toNat_key, hkey]
  have hdecimals : range.decimals ≤ 2 := h.decimals
  have hdecimals' : other.decimals ≤ 2 := hother.decimals
  have hfraction : range.decimals = other.decimals := by omega
  have hcode : range.digitCode = other.digitCode := by omega
  have hpadding : range.allowsPadding = other.allowsPadding := by
    rw [Bool.eq_iff_iff, ← odd_digitCode_iff hsome, ← odd_digitCode_iff hothers, hcode]
  have hled : range.leadingOne = other.leadingOne := Bool.not_inj hpadding
  have hnines : range.nines = other.nines := by
    unfold digitCode at hcode
    rw [hled] at hcode
    split at hcode
    · omega
    · omega
  cases range
  cases other
  cases hnines
  cases hled
  cases hfraction
  rfl

/-- The size class is the least width that holds the bound. -/
theorem isLeast_sizeClass (range : NumberRange) :
    IsLeast {width | range.bound < 256 ^ width} range.sizeClass :=
  ⟨lt_pow_byteCount range.bound, fun _ hwidth => byteCount_le hwidth⟩

/-- What a range has to be that has some digits before the point and some behind it. -/
structure Measures (range : NumberRange) (whole fraction : List Char) : Prop where
  /-- Nines alone have the odd codes. -/
  nines : (∀ c ∈ whole, c = '9') → range.key.toNat / 16 = 2 * whole.length - 1
  /-- Nines that are led by a one have the even codes. -/
  led : '1' ∈ whole → range.key.toNat / 16 = 2 * (whole.length - 1)
  decimals : range.key.toNat % 16 = fraction.length
  padding : range.allowsPadding = true ↔ ∀ c ∈ whole, c = '9'
  /-- Sixty-four bits hold the number that the digits make up. -/
  number : Text.naturalBelow? UInt64.size (whole ++ fraction) =
    some (Nat.ofDigitChars 10 (whole ++ fraction) 0)
  sizeClass : IsLeast {width | Nat.ofDigitChars 10 (whole ++ fraction) 0 < 256 ^ width}
    range.sizeClass
  dataSize : range.dataRange.sizeClass = range.sizeClass
  dataPrecision : range.dataRange.precision = fraction.length

/-- A range that can be drawn is measured by its digits. -/
theorem Drawable.measures (h : range.Drawable) (hsome : range.nines ≠ 0) :
    range.Measures range.wholeDigits range.fractionDigits := by
  have hdecimals : range.decimals ≤ 2 := h.decimals
  have hhigh : range.key.toNat / 16 = range.digitCode := by
    rw [h.toNat_key]
    omega
  refine ⟨?_, ?_, ?_, ?_, ?_, ?_, h.dataRange_sizeClass, ?_⟩
  · intro hnines
    have hled := (forall_mem_wholeDigits range).1 hnines
    rw [hhigh, length_wholeDigits, digitCode, hled]
    rfl
  · intro hone
    have hled : range.leadingOne = true := by
      by_contra hled
      have hnines := (forall_mem_wholeDigits range).2 (Bool.eq_false_of_not_eq_true hled)
      exact absurd (hnines '1' hone) (by decide)
    rw [hhigh, length_wholeDigits, digitCode, if_pos hled, if_pos hled, Nat.add_sub_cancel]
  · rw [h.toNat_key, fractionDigits, List.length_replicate]
    omega
  · rw [forall_mem_wholeDigits, allowsPadding, Bool.not_eq_true']
  · have hdigits : ∀ c ∈ range.wholeDigits ++ range.fractionDigits, c.isDigit = true :=
      fun c hc => isDigit_of_mem_digits hc
    have hbound : Nat.ofDigitChars 10 (range.wholeDigits ++ range.fractionDigits) 0 <
        UInt64.size := by
      rw [ofDigitChars_digits]
      exact h.bound_lt_size
    have hread := Text.readDigits?_eq hdigits hbound
    have hempty : (range.wholeDigits ++ range.fractionDigits).isEmpty = false := by
      simp [wholeDigits, hsome]
    rw [Text.naturalBelow?, hempty]
    exact hread
  · rw [ofDigitChars_digits]
    exact isLeast_sizeClass range
  · rw [h.dataRange_precision, fractionDigits, List.length_replicate]

/-- **Ranges are read by the grammar and measured by their digits.**

* A text is read as a range if and only if it is written by the grammar.
* The range that is read then has the key, the padding and the width of its digits, and the range
  of its data has the same width and as many decimals.
* Texts that are read as ranges with one key are the same. -/
theorem read_exactly :
    (∀ text : String, (ofText? text).isSome = true ↔
      ∃ whole fraction, Spells whole fraction text.toList) ∧
    (∀ (text : String) (whole fraction : List Char), Spells whole fraction text.toList →
      ∃ range, ofText? text = some range ∧ range.Measures whole fraction) ∧
    ∀ (text text' : String) (range range' : NumberRange), ofText? text = some range →
      ofText? text' = some range' → range.key = range'.key → text = text' := by
  have hread (text : String) (whole fraction : List Char) (h : Spells whole fraction text.toList) :
      ∃ range, ofText? text = some range ∧ range.Measures whole fraction := by
    obtain ⟨range, hdrawable, hsome, rfl, rfl, htext⟩ := spells_iff.1 h
    exact ⟨range, ofText?_eq_some_iff.2 ⟨hdrawable, hsome, htext⟩, hdrawable.measures hsome⟩
  refine ⟨?_, hread, ?_⟩
  · intro text
    constructor
    · intro h
      obtain ⟨range, hrange⟩ := Option.isSome_iff_exists.1 h
      obtain ⟨hdrawable, hsome, htext⟩ := ofText?_eq_some_iff.1 hrange
      exact ⟨_, _, spells_iff.2 ⟨range, hdrawable, hsome, rfl, rfl, htext⟩⟩
    · rintro ⟨whole, fraction, h⟩
      obtain ⟨range, hrange, -⟩ := hread text whole fraction h
      rw [hrange]
      rfl
  · intro text text' range range' h h' hkey
    obtain ⟨hdrawable, hsome, htext⟩ := ofText?_eq_some_iff.1 h
    obtain ⟨hdrawable', hsome', htext'⟩ := ofText?_eq_some_iff.1 h'
    obtain rfl := key_injective hdrawable hsome hdrawable' hsome' hkey
    exact String.toList_inj.1 (htext.trans htext'.symm)

/-- The range with the most digits. -/
theorem read_exactly_widest :
    Spells ['1', '9', '9', '9', '9'] ['9', '9'] "0-19999.99".toList ∧
      ∃ range, ofText? "0-19999.99" = some range ∧
        range.Measures ['1', '9', '9', '9', '9'] ['9', '9'] := by
  have hwhole : Whole ['1', '9', '9', '9', '9'] :=
    @Whole.led 4 (by decide) (by decide)
  have hspells : Spells ['1', '9', '9', '9', '9'] ['9', '9'] "0-19999.99".toList :=
    @Spells.pointed _ 2 hwhole (by decide) (by decide)
  exact ⟨hspells, read_exactly.2.1 _ _ _ hspells⟩

end NumberRange

end Timepiece
