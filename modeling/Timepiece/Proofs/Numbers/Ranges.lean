import Mathlib
import Timepiece.WatchSet.NumberRange

/-!
# Ranges that can be drawn

The watch draws at most five digits before the point and two after it.  So the texts
that describe a range are few, and a number of a range takes at most three bytes.

## Main definitions

* `NumberRange.digits` — the bound of a range as it is written.
* `NumberRange.Drawable` — the watch has a key for the range.

## Main results

* `NumberRange.ofText?_eq_some` — **a text that describes a range is its bound after
  `0-`**, and the range can be drawn.
* `NumberRange.Drawable.lt_of_le_bound` — the whole numbers of a range have at most five
  digits.
* `NumberRange.Drawable.sizeClass_le` — a range takes at most three bytes.
-/

namespace Timepiece

/-- A number that is small enough takes no more bytes than that. -/
theorem byteCount_le {n k : Nat} (h : n < Nat.pow 256 k) : byteCount n ≤ k := by
  by_cases hzero : n = 0
  · subst hzero
    rw [byteCount, if_pos rfl]
    exact Nat.zero_le k
  · have hlt : Nat.pow 256 (byteCount n - 1) < Nat.pow 256 k :=
      (pow_byteCount_le hzero).trans_lt h
    have := (Nat.pow_lt_pow_iff_right (by decide : 1 < 256)).1 hlt
    omega

namespace NumberRange

/-- The bound of a range as it is written. -/
def digits (range : NumberRange) : List Char :=
  (if range.leadingOne then ['1'] else []) ++ List.replicate range.nines '9' ++
    (if range.decimals = 0 then [] else '.' :: List.replicate range.decimals '9')

/-- A number is shown with at most so many decimals. -/
def maxDecimals : Nat := 2

/-- The watch has a key for the range. -/
structure Drawable (range : NumberRange) : Prop where
  nines : range.nines ≤ 5
  led : range.leadingOne = true → range.nines ≤ 4
  decimals : range.decimals ≤ maxDecimals

/-! ### Reading -/

theorem eq_replicate_of_all {nines : List Char} (h : nines.all (· == '9') = true) :
    nines = List.replicate nines.length '9' :=
  List.eq_replicate_iff.2 ⟨rfl, fun digit hd => by simpa using List.all_eq_true.1 h digit hd⟩

theorem wholeOfDigits?_eq_some {whole : List Char} {nines : Nat} {led : Bool}
    (h : wholeOfDigits? whole = some (nines, led)) :
    whole = (if led then ['1'] else []) ++ List.replicate nines '9' ∧ nines ≤ 5 ∧
      (led = true → nines ≤ 4) := by
  unfold wholeOfDigits? at h
  split at h
  · next rest =>
    split at h
    · next hrest =>
      obtain ⟨rfl, rfl⟩ := Prod.mk.inj (Option.some.inj h)
      simp only [Bool.and_eq_true, decide_eq_true_eq] at hrest
      obtain ⟨⟨-, hall⟩, hlength⟩ := hrest
      refine ⟨?_, hlength.trans (by decide), fun _ => hlength⟩
      rw [← eq_replicate_of_all hall]
      rfl
    · exact nomatch h
  · split at h
    · next hrest =>
      obtain ⟨rfl, rfl⟩ := Prod.mk.inj (Option.some.inj h)
      simp only [Bool.and_eq_true, decide_eq_true_eq] at hrest
      obtain ⟨⟨-, hall⟩, hlength⟩ := hrest
      exact ⟨eq_replicate_of_all hall, hlength, fun h => nomatch h⟩
    · exact nomatch h

theorem decimalsOfDigits?_eq_some {nines : List Char} {decimals : Nat}
    (h : decimalsOfDigits? nines = some decimals) :
    nines = List.replicate decimals '9' ∧ decimals ≠ 0 ∧ decimals ≤ maxDecimals := by
  unfold decimalsOfDigits? at h
  split at h
  · next hnines =>
    obtain rfl := Option.some.inj h
    simp only [Bool.and_eq_true, decide_eq_true_eq, Bool.not_eq_true'] at hnines
    obtain ⟨⟨hsome, hall⟩, hlength⟩ := hnines
    refine ⟨eq_replicate_of_all hall, ?_, hlength⟩
    intro hzero
    rw [List.eq_nil_of_length_eq_zero hzero] at hsome
    exact nomatch hsome
  · exact nomatch h

theorem ofBound?_eq_some {bound : List Char} {range : NumberRange}
    (h : ofBound? bound = some range) : bound = range.digits ∧ range.Drawable := by
  obtain ⟨⟨nines, led⟩, hwhole, h⟩ := Option.bind_eq_some_iff.1 h
  obtain ⟨hdigits, hnines, hled⟩ := wholeOfDigits?_eq_some hwhole
  -- the bound is what stands before the point, and what is left
  have hbound := List.takeWhile_append_dropWhile (p := (· != '.')) (l := bound)
  rw [hdigits] at hbound
  dsimp only at h
  split at h
  · next hdrop =>
    obtain rfl := Option.some.inj h
    rw [hdrop] at hbound
    exact ⟨hbound.symm, hnines, hled, Nat.zero_le _⟩
  · next point rest hdrop =>
    obtain ⟨decimals, hdecimals, h⟩ := Option.bind_eq_some_iff.1 h
    obtain rfl := Option.some.inj h
    obtain ⟨hrest, hne, hle⟩ := decimalsOfDigits?_eq_some hdecimals
    have hpoint : point = '.' := by
      have hhead := List.head?_dropWhile_not (· != '.') bound
      rw [hdrop] at hhead
      simpa using hhead
    rw [hdrop, hrest, hpoint] at hbound
    refine ⟨?_, hnines, hled, hle⟩
    rw [digits, if_neg hne]
    exact hbound.symm

/-- **A text that describes a range is its bound after `0-`.** -/
theorem ofText?_eq_some {text : String} {range : NumberRange} (h : ofText? text = some range) :
    text.toList = '0' :: '-' :: range.digits ∧ range.Drawable := by
  unfold ofText? at h
  split at h
  · next bound htext =>
    obtain ⟨hbound, hdrawable⟩ := ofBound?_eq_some h
    exact ⟨by rw [htext, hbound], hdrawable⟩
  · exact nomatch h

/-! ### Numbers of a range -/

namespace Drawable

variable {range : NumberRange}

/-- The bound is one less than so many units of the last decimal. -/
theorem bound_lt (h : range.Drawable) :
    range.bound < 100000 * Nat.pow 10 range.decimals := by
  have hnines := h.nines
  unfold bound
  have hsplit : Nat.pow 10 (range.nines + range.decimals) =
      Nat.pow 10 range.nines * Nat.pow 10 range.decimals := Nat.pow_add 10 _ _
  have hpos : 0 < Nat.pow 10 range.decimals := Nat.pow_pos (by decide)
  rw [hsplit, ← Nat.mul_assoc]
  have hwhole : (if range.leadingOne = true then 2 else 1) * Nat.pow 10 range.nines ≤ 100000 := by
    split
    · next hled =>
      exact Nat.mul_le_mul_left 2 (Nat.pow_le_pow_right (by decide) (h.led hled)) |>.trans
        (by decide)
    · rw [Nat.one_mul]
      exact Nat.pow_le_pow_right (by decide) hnines
  have := Nat.mul_le_mul_right (Nat.pow 10 range.decimals) hwhole
  have hsome : 0 < (if range.leadingOne = true then 2 else 1) * Nat.pow 10 range.nines *
      Nat.pow 10 range.decimals := by
    refine Nat.mul_pos (Nat.mul_pos ?_ (Nat.pow_pos (by decide))) hpos
    split <;> decide
  omega

/-- The whole numbers of a range have at most five digits. -/
theorem lt_of_le_bound (h : range.Drawable) {v : Nat}
    (hv : v * Nat.pow 10 range.decimals ≤ range.bound) : v < 100000 :=
  Nat.lt_of_mul_lt_mul_right (hv.trans_lt h.bound_lt)

/-- A range takes at most three bytes. -/
theorem sizeClass_le (h : range.Drawable) : range.sizeClass ≤ 3 := by
  refine byteCount_le (h.bound_lt.trans_le ?_)
  have hpow : Nat.pow 10 range.decimals ≤ Nat.pow 10 maxDecimals :=
    Nat.pow_le_pow_right (by decide) h.decimals
  exact (Nat.mul_le_mul_left 100000 hpow).trans (by decide)

/-- What goes into the range of the data comes out of it. -/
theorem dataRange_sizeClass (h : range.Drawable) :
    range.dataRange.sizeClass = range.sizeClass := by
  rw [dataRange, Range.sizeClass_number]
  exact Nat.mod_eq_of_lt (h.sizeClass_le.trans_lt (by decide))

theorem dataRange_precision (h : range.Drawable) :
    range.dataRange.precision = range.decimals := by
  rw [dataRange, Range.precision_number]
  exact Nat.mod_eq_of_lt (h.decimals.trans_lt (by decide))

end Drawable

end NumberRange

end Timepiece
