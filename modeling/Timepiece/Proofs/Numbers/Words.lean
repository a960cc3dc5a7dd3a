import Mathlib
import Timepiece.Bytes

/-!
# Words in bytes

Bytes and the number that they stand for are two ways to write the same thing, as long as the number
of bytes is known.  So a word is read back from its bytes, and bytes are those of the word that is
read from them.

## Main results

* `bigEndian_ofBigEndian` — **bytes are those of the number that they stand for.**
* `ofBigEndian_wordBytes`, `ofBigEndian_longBytes` — words are read back.
* `exists_wordBytes`, `exists_longBytes` — bytes that are long enough begin with those of a word.
-/

namespace Timepiece

/-- Big-endian bytes are those of the number that they stand for. -/
theorem bigEndian_ofBigEndian (bytes : Bytes) :
    bigEndian bytes.length (ofBigEndian bytes) = bytes := by
  induction bytes using List.reverseRecOn with
  | nil => rfl
  | append_singleton bytes byte ih =>
    have hlt := byte.toNat_lt
    have hlow : UInt8.ofNat (ofBigEndian bytes * 256 + byte.toNat) = byte := by
      refine UInt8.toNat_inj.1 ?_
      rw [UInt8.toNat_ofNat']
      omega
    have hhigh : (ofBigEndian bytes * 256 + byte.toNat) / 256 = ofBigEndian bytes := by omega
    rw [ofBigEndian_append_singleton, List.length_append, List.length_singleton, bigEndian_succ,
      hhigh, ih, hlow]

/-- Bytes stand for a number that fits their width. -/
theorem ofBigEndian_lt (bytes : Bytes) : ofBigEndian bytes < 256 ^ bytes.length := by
  induction bytes using List.reverseRecOn with
  | nil => exact Nat.one_pos
  | append_singleton bytes byte ih =>
    have hlt := byte.toNat_lt
    rw [ofBigEndian_append_singleton, List.length_append, List.length_singleton, Nat.pow_succ]
    omega

/-! ### Words of 16 bits -/

theorem ofBigEndian_wordBytes (word : UInt16) : ofBigEndian (wordBytes word) = word.toNat := by
  rw [wordBytes, ofBigEndian_bigEndian]
  exact Nat.mod_eq_of_lt word.toNat_lt

theorem wordBytes_ofBigEndian (a b : UInt8) :
    wordBytes (UInt16.ofNat (ofBigEndian [a, b])) = [a, b] := by
  have hlt : ofBigEndian [a, b] < 2 ^ 16 := (ofBigEndian_lt [a, b]).trans_eq (by norm_num)
  rw [wordBytes, UInt16.toNat_ofNat', Nat.mod_eq_of_lt hlt]
  exact bigEndian_ofBigEndian [a, b]

/-- Two bytes or more begin with those of a word. -/
theorem exists_wordBytes {bytes : Bytes} (h : 2 ≤ bytes.length) :
    ∃ word rest, bytes = wordBytes word ++ rest := by
  rcases bytes with _ | ⟨a, _ | ⟨b, rest⟩⟩
  · simp at h
  · simp at h
  · refine ⟨UInt16.ofNat (ofBigEndian [a, b]), rest, ?_⟩
    rw [wordBytes_ofBigEndian]
    rfl

theorem wordBytes_injective : Function.Injective wordBytes := by
  intro word other h
  have hread := congrArg ofBigEndian h
  rw [ofBigEndian_wordBytes, ofBigEndian_wordBytes] at hread
  exact UInt16.toNat_inj.1 hread

@[simp] theorem length_wordBytes (word : UInt16) : (wordBytes word).length = 2 :=
  length_bigEndian 2 _

/-! ### Words of 32 bits -/

theorem ofBigEndian_longBytes (word : UInt32) : ofBigEndian (longBytes word) = word.toNat := by
  rw [longBytes, ofBigEndian_bigEndian]
  exact Nat.mod_eq_of_lt word.toNat_lt

theorem longBytes_ofBigEndian (a b c d : UInt8) :
    longBytes (UInt32.ofNat (ofBigEndian [a, b, c, d])) = [a, b, c, d] := by
  have hlt : ofBigEndian [a, b, c, d] < 2 ^ 32 :=
    (ofBigEndian_lt [a, b, c, d]).trans_eq (by norm_num)
  rw [longBytes, UInt32.toNat_ofNat', Nat.mod_eq_of_lt hlt]
  exact bigEndian_ofBigEndian [a, b, c, d]

/-- Four bytes or more begin with those of a word. -/
theorem exists_longBytes {bytes : Bytes} (h : 4 ≤ bytes.length) :
    ∃ word rest, bytes = longBytes word ++ rest := by
  rcases bytes with _ | ⟨a, _ | ⟨b, _ | ⟨c, _ | ⟨d, rest⟩⟩⟩⟩
  · simp at h
  · simp at h
  · simp at h
  · simp at h
  · refine ⟨UInt32.ofNat (ofBigEndian [a, b, c, d]), rest, ?_⟩
    rw [longBytes_ofBigEndian]
    rfl

theorem longBytes_injective : Function.Injective longBytes := by
  intro word other h
  have hread := congrArg ofBigEndian h
  rw [ofBigEndian_longBytes, ofBigEndian_longBytes] at hread
  exact UInt32.toNat_inj.1 hread

@[simp] theorem length_longBytes (word : UInt32) : (longBytes word).length = 4 :=
  length_bigEndian 4 _

end Timepiece
