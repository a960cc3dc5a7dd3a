import Mathlib
import Timepiece.External.Value

/-!
# Numbers in a few bytes

A number for the watch is scaled by a power of ten.  The power is cut at the bounds of 64 bits, the
product is cut there again, and of its 64 bits only the low-order bytes are sent.  Neither of the
first two cuts is noticed if the scaled number has 64 bits itself, since a power of ten that is cut
is too large for any number but zero.  Then what is sent is the scaled number, up to multiples of
the room that there is; and whoever knows whether negative numbers are meant gets it back if it has
the room.

## Main definitions

* `ofSignedBigEndian` — the number that bytes stand for in two's complement.

## Main results

* `Value.scaled_integer` — a scaled number of 64 bits is not cut.
* `Value.ofBigEndian_encodeNumber_eq_emod` — what is sent of a scaled number is its remainder.
* `Value.encode_number` — **numbers are sent exactly, up to the room that there is**.
-/

namespace Timepiece

/-! ### Two's complement -/

/-- The number that big-endian bytes stand for in two's complement: the upper half of the numbers of
their width stand for negative ones. -/
def ofSignedBigEndian (bytes : Bytes) : Int :=
  if 2 * ofBigEndian bytes < 256 ^ bytes.length then ofBigEndian bytes
  else ofBigEndian bytes - 256 ^ bytes.length

/-- A number that has the room is read from its remainder. -/
theorem ofSignedBigEndian_eq {bytes : Bytes} {n : Int}
    (hread : (ofBigEndian bytes : Int) = n % 256 ^ bytes.length)
    (hlow : -(256 ^ bytes.length) ≤ 2 * n) (hhigh : 2 * n < 256 ^ bytes.length) :
    ofSignedBigEndian bytes = n := by
  have hroom : ((256 ^ bytes.length : Nat) : Int) = 256 ^ bytes.length := by push_cast; rfl
  rw [ofSignedBigEndian]
  generalize (256 : Int) ^ bytes.length = room at *
  by_cases hneg : n < 0
  · -- a negative number is in the upper half
    have hrem : n % room = n + room := by
      rw [← Int.add_emod_right, Int.emod_eq_of_lt (by omega) (by omega)]
    rw [hrem] at hread
    rw [if_neg (by omega), hread, Int.add_sub_cancel]
  · have hrem : n % room = n := Int.emod_eq_of_lt (by omega) (by omega)
    rw [hrem] at hread
    rw [if_pos (by omega), hread]

namespace Value

/-! ### Cuts -/

/-- A number of 64 bits is not cut. -/
theorem saturate_of_inSigned64 {n : Int} (h : Text.inSigned64 n = true) : saturate n = n := by
  simp only [Text.inSigned64, Bool.and_eq_true, decide_eq_true_eq] at h
  unfold saturate
  omega

/-- A power of ten that is cut is too large for any number but zero. -/
theorem lt_of_inSigned64 {v : Int} {precision : Nat} (hv : v ≠ 0)
    (h : Text.inSigned64 (v * 10 ^ precision) = true) : precision < 19 := by
  by_contra hlarge
  simp only [Text.inSigned64, Bool.and_eq_true, decide_eq_true_eq] at h
  have hpow : (10000000000000000000 : Int) ≤ 10 ^ precision := by
    show (10 : Int) ^ 19 ≤ 10 ^ precision
    exact pow_le_pow_right₀ (by decide) (Nat.le_of_not_lt hlarge)
  rcases lt_or_gt_of_ne hv with hneg | hpos
  · nlinarith
  · nlinarith

/-- Powers of ten up to the eighteenth are not cut. -/
theorem scale_of_lt {precision : Nat} (h : precision < 19) : scale precision = 10 ^ precision := by
  have hall : ∀ precision < 19, scale precision = 10 ^ precision := by decide
  exact hall precision h

/-- A scaled number of 64 bits is not cut. -/
theorem scaled_integer {v : Int} {precision : Nat}
    (h : Text.inSigned64 (v * 10 ^ precision) = true) :
    scaled precision (some (.integer v)) = v * 10 ^ precision := by
  rw [scaled]
  by_cases hv : v = 0
  · subst hv
    rw [Int.zero_mul, Int.zero_mul]
    rfl
  · rw [scale_of_lt (lt_of_inSigned64 hv h), saturate_of_inSigned64 h]

/-- What is sent of a scaled number is its remainder. -/
theorem ofBigEndian_encodeNumber_eq_emod (range : Range) (value : Option Value) :
    (ofBigEndian (encodeNumber range value) : Int) =
      scaled range.precision value % 256 ^ range.sizeClass := by
  have hdvd : (256 : Int) ^ range.sizeClass ∣ UInt64.size :=
    pow_dvd_pow 256 (Nat.le_of_lt range.sizeClass_lt)
  have hpos : 0 ≤ scaled range.precision value % UInt64.size := Int.emod_nonneg _ (by decide)
  rw [encodeNumber, ofBigEndian_bigEndian, Int.natCast_mod, Int.toNat_of_nonneg hpos]
  have hpow : ((Nat.pow 256 range.sizeClass : Nat) : Int) = 256 ^ range.sizeClass := rfl
  rw [hpow, Int.emod_emod_of_dvd _ hdvd]

/-! ### Numbers for the watch -/

/-- What has the room has 64 bits. -/
theorem inSigned64_of_room {n : Int} (range : Range) (hlow : -(256 ^ range.sizeClass) ≤ n)
    (hhigh : n < 256 ^ range.sizeClass) : Text.inSigned64 n = true := by
  have hroom : (256 : Int) ^ range.sizeClass ≤ 256 ^ 7 :=
    pow_le_pow_right₀ (by decide) (Nat.le_of_lt_succ range.sizeClass_lt)
  simp only [Text.inSigned64, Bool.and_eq_true, decide_eq_true_eq]
  omega

/-- **Numbers are sent exactly, up to the room that there is.**  Whatever is reported of a number
takes as many bytes as its size class says.  If it is a whole number, and scaled it has 64 bits, the
bytes are the remainder of the scaled number.  So it is read back if it has the room, without a sign
if it is not negative, and in two's complement if it is in the range of that. -/
theorem encode_number (property : Property) (hkind : property.kind = .number) :
    (∀ value, (encode property value).length = property.range.sizeClass) ∧
      ∀ v : Int,
        (Text.inSigned64 (v * 10 ^ property.range.precision) = true →
          (ofBigEndian (encode property (some (.integer v))) : Int) =
            v * 10 ^ property.range.precision % 256 ^ property.range.sizeClass) ∧
        (0 ≤ v * 10 ^ property.range.precision →
          v * 10 ^ property.range.precision < 256 ^ property.range.sizeClass →
          (ofBigEndian (encode property (some (.integer v))) : Int) =
            v * 10 ^ property.range.precision) ∧
        (1 ≤ property.range.sizeClass →
          -(256 ^ property.range.sizeClass / 2) ≤ v * 10 ^ property.range.precision →
          v * 10 ^ property.range.precision < 256 ^ property.range.sizeClass / 2 →
          ofSignedBigEndian (encode property (some (.integer v))) =
            v * 10 ^ property.range.precision) := by
  have hencode : ∀ value, encode property value = encodeNumber property.range value := by
    intro value
    rw [encode, hkind]
  have hread : ∀ v : Int, Text.inSigned64 (v * 10 ^ property.range.precision) = true →
      (ofBigEndian (encodeNumber property.range (some (.integer v))) : Int) =
        v * 10 ^ property.range.precision % 256 ^ property.range.sizeClass := by
    intro v hfits
    rw [ofBigEndian_encodeNumber_eq_emod, scaled_integer hfits]
  simp only [hencode]
  refine ⟨length_encodeNumber property.range, fun v => ⟨hread v, fun hlow hhigh => ?_, ?_⟩⟩
  · have hroom : (0 : Int) ≤ 256 ^ property.range.sizeClass := by positivity
    rw [hread v (inSigned64_of_room property.range (by omega) hhigh), Int.emod_eq_of_lt hlow hhigh]
  · intro hsize hlow hhigh
    have hlength := length_encodeNumber property.range (some (.integer v))
    have hroom : (0 : Int) ≤ 256 ^ property.range.sizeClass := by positivity
    have hfits := inSigned64_of_room (n := v * 10 ^ property.range.precision) property.range
      (by omega) (by omega)
    refine ofSignedBigEndian_eq ?_ ?_ ?_
    · rw [hlength, hread v hfits]
    · rw [hlength]
      omega
    · rw [hlength]
      omega

/-- A property with two bytes and two decimals. -/
def temperature : Property := ⟨"weather", "temperature", .number, .number 2 2⟩

/-- A negative number is read back in two's complement, and one that is too large loses what does
not fit. -/
theorem encode_number_temperature :
    ofSignedBigEndian (encode temperature (some (.integer (-327)))) = -32700 ∧
      (ofBigEndian (encode temperature (some (.integer 700))) : Int) = 70000 % 65536 := by
  obtain ⟨-, hread⟩ := encode_number temperature rfl
  exact ⟨(hread (-327)).2.2 (by decide) (by decide) (by decide), (hread 700).1 (by decide)⟩

end Value

end Timepiece
