import Mathlib
import Timepiece.External.Value

/-!
# Values that are equal

Floats are compared as numbers.  The two zeros are the only floats that are equal as numbers and
not the same, apart from what is not a number, which equals nothing.  So two reports that are equal
are the same, or both are zeros.

## Main definitions

* `Value.isZero` — a float that is zero, of either sign.
* `Value.isNaN` — a float that is not a number.

## Main results

* `eq_or_zero_of_beq` — of floats.
* `Value.eq_or_zero_of_sameOption` — **two reports that are equal are the same, or zeros**.
* `Value.sameOption_self` — **a report equals itself unless it is not a number**.
-/

namespace Timepiece

open Float.Model

/-! ### Floats -/

/-- A float is made of its parts again. -/
theorem pack_unpack_toModel (v : Float) :
    UnpackedFloat.pack Format.binary64 v.toModel.unpack = v.toModel.toBits.toBitVec := by
  show UnpackedFloat.pack Format.binary64
    (UnpackedFloat.unpack Format.binary64 v.toModel.toBits.toBitVec) = _
  rw [UnpackedFloat.pack_unpack]
  split
  · next hnan =>
    -- there is one way to write what is not a number
    obtain ⟨hexponent, hmantissa⟩ := of_decide_eq_true hnan
    exact (v.toModel.valid.eq_packedNaN hexponent hmantissa).symm
  · rfl

/-- A float is told by its parts. -/
theorem eq_of_unpack_eq {v w : Float} (h : v.toModel.unpack = w.toModel.unpack) : v = w := by
  have hvector : v.toModel.toBits.toBitVec = w.toModel.toBits.toBitVec := by
    rw [← pack_unpack_toModel, ← pack_unpack_toModel, h]
  have hbits : v.toModel.toBits = w.toModel.toBits := UInt64.toBitVec_inj.1 hvector
  cases v with
  | ofModel v =>
    cases w with
    | ofModel w =>
      cases v
      cases w
      cases hbits
      rfl

theorem unpack_zero : (0 : Float).toModel.unpack = .zero .positive := rfl

theorem eq_of_compare_then {e e' : Int} {m m' : Nat}
    (h : (compare e e').then (compare m m') = .eq) : m = m' ∧ e = e' := by
  rw [Ordering.then_eq_eq] at h
  exact ⟨compare_eq_iff_eq.1 h.2, compare_eq_iff_eq.1 h.1⟩

/-- Parts that are compared as equal are the same, or those of zeros. -/
theorem eq_or_zero_of_compare {v w : UnpackedFloat} (h : v.compare w = some .eq) :
    v = w ∨ (∃ sign, v = .zero sign) ∧ ∃ sign, w = .zero sign := by
  cases v with
  | notANumber => exact nomatch h
  | infinity s =>
    cases w with
    | infinity t =>
      cases s <;> cases t <;> first | exact .inl rfl | exact nomatch h
    | notANumber | zero | finite => cases s <;> exact nomatch h
  | zero s =>
    cases w with
    | zero t => exact .inr ⟨⟨s, rfl⟩, t, rfl⟩
    | infinity t | finite t => cases t <;> exact nomatch h
    | notANumber => exact nomatch h
  | finite s m e hm =>
    cases w with
    | finite t m' e' hm' =>
      cases s <;> cases t
      case positive.positive =>
        obtain ⟨rfl, rfl⟩ := eq_of_compare_then (Option.some.inj h)
        exact .inl rfl
      case negative.negative =>
        -- of negative floats the greater one has the smaller magnitude
        have hsame : (compare e e').then (compare m m') = .eq := by
          rw [← Ordering.swap_inj]
          exact Option.some.inj h
        obtain ⟨rfl, rfl⟩ := eq_of_compare_then hsame
        exact .inl rfl
      all_goals exact nomatch h
    | infinity t => cases t <;> cases s <;> exact nomatch h
    | zero => cases s <;> exact nomatch h
    | notANumber => exact nomatch h

theorem beq_zero_of_unpack {v : Float} {sign : UnpackedFloat.Sign}
    (h : v.toModel.unpack = .zero sign) : (v == 0) = true := by
  show (v.toModel.unpack.compare (0 : Float).toModel.unpack == some .eq) = true
  rw [h, unpack_zero]
  rfl

/-- Floats that are equal as numbers are the same, or zeros. -/
theorem eq_or_zero_of_beq {v w : Float} (h : (v == w) = true) :
    v = w ∨ (v == 0) = true ∧ (w == 0) = true := by
  have hcompare : v.toModel.unpack.compare w.toModel.unpack = some .eq := beq_iff_eq.1 h
  obtain hsame | ⟨⟨_, hv⟩, ⟨_, hw⟩⟩ := eq_or_zero_of_compare hcompare
  · exact .inl (eq_of_unpack_eq hsame)
  · exact .inr ⟨beq_zero_of_unpack hv, beq_zero_of_unpack hw⟩

/-- A float equals itself unless it is not a number. -/
theorem beq_self_eq (v : Float) : (v == v) = !v.isNaN := by
  show (v.toModel.unpack.compare v.toModel.unpack == some .eq) = !v.toModel.unpack.isNaN
  cases v.toModel.unpack with
  | notANumber => rfl
  | infinity s => cases s <;> rfl
  | zero s => rfl
  | finite s m e hm => cases s <;> simp [UnpackedFloat.compare, UnpackedFloat.isNaN]

/-- What is not a number equals nothing. -/
theorem isNaN_of_beq {v w : Float} (h : (v == w) = true) : w.isNaN = false := by
  have hcompare : v.toModel.unpack.compare w.toModel.unpack = some .eq := beq_iff_eq.1 h
  show w.toModel.unpack.isNaN = false
  cases hw : w.toModel.unpack with
  | notANumber =>
    rw [hw] at hcompare
    cases hv : v.toModel.unpack <;> rw [hv] at hcompare <;> cases hcompare
  | infinity | zero | finite => rfl

/-! ### Reports -/

namespace Value

/-- Whether a value is a float that is zero, of either sign. -/
def isZero : Value → Bool
  | float v => v == 0
  | _ => false

variable {value other : Value}

theorem eq_or_zero_of_same (h : same value other = true) :
    value = other ∨ value.isZero = true ∧ other.isZero = true := by
  cases value with
  | integer n =>
    cases other with
    | integer m => exact .inl (congrArg integer (beq_iff_eq.1 h))
    | float | text => exact nomatch h
  | float v =>
    cases other with
    | float w => exact (eq_or_zero_of_beq h).imp_left (congrArg float)
    | integer | text => exact nomatch h
  | text s =>
    cases other with
    | text t => exact .inl (congrArg text (beq_iff_eq.1 h))
    | integer | float => exact nomatch h

/-- **Two reports that are equal are the same, or zeros.** -/
theorem eq_or_zero_of_sameOption {report other : Option Value}
    (h : sameOption report other = true) :
    report = other ∨ (∃ value, report = some value ∧ value.isZero = true) ∧
      ∃ value, other = some value ∧ value.isZero = true := by
  cases report with
  | none =>
    cases other with
    | none => exact .inl rfl
    | some value => exact nomatch h
  | some value =>
    cases other with
    | none => exact nomatch h
    | some other =>
      obtain rfl | ⟨hvalue, hother⟩ := eq_or_zero_of_same h
      · exact .inl rfl
      · exact .inr ⟨⟨value, rfl, hvalue⟩, other, rfl, hother⟩

/-- Whether a value is a float that is not a number. -/
def isNaN : Value → Bool
  | float v => v.isNaN
  | _ => false

theorem same_self (value : Value) : same value value = !value.isNaN := by
  cases value with
  | integer n => exact beq_self_eq_true n
  | float v => exact beq_self_eq v
  | text s => exact beq_self_eq_true s

/-- **A report equals itself unless it is not a number.** -/
theorem sameOption_self (report : Option Value) : sameOption report report = !report.any isNaN := by
  cases report with
  | none => rfl
  | some value => exact same_self value

theorem isNaN_of_same (h : same value other = true) : other.isNaN = false := by
  cases value with
  | float v =>
    cases other with
    | float w => exact isNaN_of_beq h
    | integer | text => rfl
  | integer | text =>
    cases other with
    | float w => cases h
    | integer | text => rfl

theorem any_isNaN_of_sameOption {report other : Option Value} (h : sameOption report other = true) :
    other.any isNaN = false := by
  cases report with
  | none =>
    cases other with
    | none => rfl
    | some other => cases h
  | some value =>
    cases other with
    | none => rfl
    | some other => exact isNaN_of_same h

end Value

end Timepiece
