import Mathlib
import Timepiece.Text.Base64
import Timepiece.Text.Blank

/-!
# Base64 texts are read back

Three bytes are four values of six bits, written in base 64 and read in base 256, so the text
of a string of bytes stands for these bytes.  Since the bits that are left over have to be zero and
the filling has to be there, no other text does.

## Main results

* `Base64.decode?_encode` — **the bytes of the text of a string of bytes are these bytes.**
* `Base64.decode?_eq_some_iff` — **no other text has these bytes.**
* `Base64.dropBlanks_encode` — no character of such a text is a blank.
-/

namespace Timepiece.Base64

/-! ### Characters -/

theorem value?_digit {n : Nat} (h : n < 64) : value? (digit n) = some n := by
  have hall : ∀ n < 64, value? (digit n) = some n := by decide
  exact hall n h

/-- The filling is no digit. -/
theorem digit_ne_filling {n : Nat} (h : n < 64) : digit n ≠ '=' := by
  have hall : ∀ n < 64, digit n ≠ '=' := by decide
  exact hall n h

theorem isBlank_digit {n : Nat} (h : n < 64) : Text.isBlank (digit n) = false := by
  have hall : ∀ n < 64, Text.isBlank (digit n) = false := by decide
  exact hall n h

/-- A character is known by its place in a range of characters. -/
theorem ofNat_toNat_add {c : Char} {low shift : Nat} (hle : low ≤ c.toNat) :
    Char.ofNat (c.toNat - low + shift - shift + low) = c := by
  have heq : c.toNat - low + shift - shift + low = c.toNat := by omega
  rw [heq, Char.ofNat_toNat]

/-- A character with a value is the digit of that value. -/
theorem eq_digit_of_value? {c : Char} {n : Nat} (h : value? c = some n) : n < 64 ∧ c = digit n := by
  have hle {first : Char} (hle : first ≤ c) : first.toNat ≤ c.toNat := hle
  have hle' {last : Char} (hle : c ≤ last) : c.toNat ≤ last.toNat := hle
  unfold value? at h
  split at h
  · next hrange =>
    obtain rfl := Option.some.inj h
    have hlow : 65 ≤ c.toNat := hle hrange.1
    have hhigh : c.toNat ≤ 90 := hle' hrange.2
    show c.toNat - 65 < 64 ∧ c = digit (c.toNat - 65)
    refine ⟨by omega, ?_⟩
    rw [digit, if_pos (by omega)]
    exact (@ofNat_toNat_add c 65 0 hlow).symm
  split at h
  · next hrange =>
    obtain rfl := Option.some.inj h
    have hlow : 97 ≤ c.toNat := hle hrange.1
    have hhigh : c.toNat ≤ 122 := hle' hrange.2
    show c.toNat - 97 + 26 < 64 ∧ c = digit (c.toNat - 97 + 26)
    refine ⟨by omega, ?_⟩
    rw [digit, if_neg (by omega), if_pos (by omega)]
    exact (ofNat_toNat_add hlow).symm
  split at h
  · next hrange =>
    obtain rfl := Option.some.inj h
    have hlow : 48 ≤ c.toNat := hle hrange.1
    have hhigh : c.toNat ≤ 57 := hle' hrange.2
    show c.toNat - 48 + 52 < 64 ∧ c = digit (c.toNat - 48 + 52)
    refine ⟨by omega, ?_⟩
    rw [digit, if_neg (by omega), if_neg (by omega), if_pos (by omega)]
    exact (ofNat_toNat_add hlow).symm
  split at h
  · next hplus =>
    obtain rfl := Option.some.inj h
    exact ⟨by decide, hplus⟩
  split at h
  · next hslash =>
    obtain rfl := Option.some.inj h
    exact ⟨by decide, hslash⟩
  · cases h

/-! ### Groups -/

/-- The first six bits of a group. -/
theorem div_four_lt (a : UInt8) : a.toNat / 4 < 64 := by
  have h := a.toNat_lt
  omega

/-- The second six bits of a group. -/
theorem second_lt (a b : UInt8) : a.toNat % 4 * 16 + b.toNat / 16 < 64 := by
  have h := b.toNat_lt
  omega

/-- The third six bits of a group. -/
theorem third_lt (b c : UInt8) : b.toNat % 16 * 4 + c.toNat / 64 < 64 := by
  have h := c.toNat_lt
  omega

theorem lastByte?_digits (a : UInt8) :
    lastByte? (digit (a.toNat / 4)) (digit (a.toNat % 4 * 16)) = some [a] := by
  have ha : a.toNat / 4 * 4 + a.toNat % 4 * 16 / 16 = a.toNat := by omega
  rw [lastByte?, value?_digit (div_four_lt a), value?_digit (by omega)]
  show (if _ then some [UInt8.ofNat _] else none) = _
  rw [if_pos (by omega), ha, UInt8.ofNat_toNat]

theorem lastTwoBytes?_digits (a b : UInt8) :
    lastTwoBytes? (digit (a.toNat / 4)) (digit (a.toNat % 4 * 16 + b.toNat / 16))
      (digit (b.toNat % 16 * 4)) = some [a, b] := by
  have hlt := b.toNat_lt
  have ha : a.toNat / 4 * 4 + (a.toNat % 4 * 16 + b.toNat / 16) / 16 = a.toNat := by omega
  have hb : (a.toNat % 4 * 16 + b.toNat / 16) % 16 * 16 + b.toNat % 16 * 4 / 4 = b.toNat := by
    omega
  rw [lastTwoBytes?, value?_digit (div_four_lt a), value?_digit (second_lt a b),
    value?_digit (by omega)]
  show (if _ then some [UInt8.ofNat _, UInt8.ofNat _] else none) = _
  rw [if_pos (by omega), ha, hb, UInt8.ofNat_toNat, UInt8.ofNat_toNat]

theorem threeBytes?_digits (a b c : UInt8) :
    threeBytes? (digit (a.toNat / 4)) (digit (a.toNat % 4 * 16 + b.toNat / 16))
      (digit (b.toNat % 16 * 4 + c.toNat / 64)) (digit (c.toNat % 64)) = some (a, b, c) := by
  have hlt := b.toNat_lt
  have hlt' := c.toNat_lt
  have ha : a.toNat / 4 * 4 + (a.toNat % 4 * 16 + b.toNat / 16) / 16 = a.toNat := by omega
  have hb : (a.toNat % 4 * 16 + b.toNat / 16) % 16 * 16 +
      (b.toNat % 16 * 4 + c.toNat / 64) / 4 = b.toNat := by omega
  have hc : (b.toNat % 16 * 4 + c.toNat / 64) % 4 * 64 + c.toNat % 64 = c.toNat := by omega
  rw [threeBytes?, value?_digit (div_four_lt a), value?_digit (second_lt a b),
    value?_digit (third_lt b c), value?_digit (by omega)]
  show some (UInt8.ofNat _, UInt8.ofNat _, UInt8.ofNat _) = _
  rw [ha, hb, hc, UInt8.ofNat_toNat, UInt8.ofNat_toNat, UInt8.ofNat_toNat]

/-- A number that fits a byte is the number of that byte. -/
theorem toNat_ofNat_of_lt {n : Nat} (h : n < 256) : (UInt8.ofNat n).toNat = n := by
  rw [UInt8.toNat_ofNat', Nat.mod_eq_of_lt h]

/-- A last group of one byte is the text of that byte. -/
theorem encode_of_lastByte? {a b : Char} {last : Bytes} (h : lastByte? a b = some last) :
    encode last = [a, b, '=', '='] := by
  unfold lastByte? at h
  obtain ⟨x, hx, hrest⟩ := Option.bind_eq_some_iff.1 h
  obtain ⟨y, hy, hlast⟩ := Option.bind_eq_some_iff.1 hrest
  obtain ⟨hxlt, rfl⟩ := eq_digit_of_value? hx
  obtain ⟨hylt, rfl⟩ := eq_digit_of_value? hy
  split at hlast
  · next hzero =>
    obtain rfl := Option.some.inj hlast
    have hbyte := toNat_ofNat_of_lt (n := x * 4 + y / 16) (by omega)
    have hfirst : (x * 4 + y / 16) / 4 = x := by omega
    have hsecond : (x * 4 + y / 16) % 4 * 16 = y := by omega
    rw [encode, hbyte, hfirst, hsecond]
  · cases hlast

/-- A last group of two bytes is the text of these bytes. -/
theorem encode_of_lastTwoBytes? {a b c : Char} {last : Bytes}
    (h : lastTwoBytes? a b c = some last) : encode last = [a, b, c, '='] := by
  unfold lastTwoBytes? at h
  obtain ⟨x, hx, hrest⟩ := Option.bind_eq_some_iff.1 h
  obtain ⟨y, hy, hrest'⟩ := Option.bind_eq_some_iff.1 hrest
  obtain ⟨z, hz, hlast⟩ := Option.bind_eq_some_iff.1 hrest'
  obtain ⟨hxlt, rfl⟩ := eq_digit_of_value? hx
  obtain ⟨hylt, rfl⟩ := eq_digit_of_value? hy
  obtain ⟨hzlt, rfl⟩ := eq_digit_of_value? hz
  split at hlast
  · next hzero =>
    obtain rfl := Option.some.inj hlast
    have hbyte := toNat_ofNat_of_lt (n := x * 4 + y / 16) (by omega)
    have hbyte' := toNat_ofNat_of_lt (n := y % 16 * 16 + z / 4) (by omega)
    have hfirst : (x * 4 + y / 16) / 4 = x := by omega
    have hsecond : (x * 4 + y / 16) % 4 * 16 + (y % 16 * 16 + z / 4) / 16 = y := by omega
    have hthird : (y % 16 * 16 + z / 4) % 16 * 4 = z := by omega
    rw [encode, hbyte, hbyte', hfirst, hsecond, hthird]
  · cases hlast

/-- A full group is the text of its bytes, whatever follows it. -/
theorem encode_of_threeBytes? {a b c d : Char} {x y z : UInt8} (rest : Bytes)
    (h : threeBytes? a b c d = some (x, y, z)) :
    encode (x :: y :: z :: rest) = a :: b :: c :: d :: encode rest := by
  unfold threeBytes? at h
  obtain ⟨p, hp, hrest⟩ := Option.bind_eq_some_iff.1 h
  obtain ⟨q, hq, hrest'⟩ := Option.bind_eq_some_iff.1 hrest
  obtain ⟨r, hr, hrest''⟩ := Option.bind_eq_some_iff.1 hrest'
  obtain ⟨s, hs, hgroup⟩ := Option.bind_eq_some_iff.1 hrest''
  obtain ⟨hplt, rfl⟩ := eq_digit_of_value? hp
  obtain ⟨hqlt, rfl⟩ := eq_digit_of_value? hq
  obtain ⟨hrlt, rfl⟩ := eq_digit_of_value? hr
  obtain ⟨hslt, rfl⟩ := eq_digit_of_value? hs
  cases hgroup
  have hbyte := toNat_ofNat_of_lt (n := p * 4 + q / 16) (by omega)
  have hbyte' := toNat_ofNat_of_lt (n := q % 16 * 16 + r / 4) (by omega)
  have hbyte'' := toNat_ofNat_of_lt (n := r % 4 * 64 + s) (by omega)
  have hfirst : (p * 4 + q / 16) / 4 = p := by omega
  have hsecond : (p * 4 + q / 16) % 4 * 16 + (q % 16 * 16 + r / 4) / 16 = q := by omega
  have hthird : (q % 16 * 16 + r / 4) % 16 * 4 + (r % 4 * 64 + s) / 64 = r := by omega
  have hfourth : (r % 4 * 64 + s) % 64 = s := by omega
  rw [encode, hbyte, hbyte', hbyte'', hfirst, hsecond, hthird, hfourth]

/-! ### Texts -/

/-- The characters of a text are digits and the filling. -/
theorem eq_of_mem_encode {bytes : Bytes} {c : Char} (h : c ∈ encode bytes) :
    c = '=' ∨ ∃ n < 64, c = digit n := by
  fun_induction encode bytes with
  | case1 => exact absurd h List.not_mem_nil
  | case2 a =>
    simp only [List.mem_cons, List.not_mem_nil, or_false] at h
    rcases h with rfl | rfl | rfl | rfl
    · exact .inr ⟨_, div_four_lt a, rfl⟩
    · exact .inr ⟨_, by omega, rfl⟩
    · exact .inl rfl
    · exact .inl rfl
  | case3 a b =>
    simp only [List.mem_cons, List.not_mem_nil, or_false] at h
    rcases h with rfl | rfl | rfl | rfl
    · exact .inr ⟨_, div_four_lt a, rfl⟩
    · exact .inr ⟨_, second_lt a b, rfl⟩
    · exact .inr ⟨_, by omega, rfl⟩
    · exact .inl rfl
  | case4 a b c rest ih =>
    simp only [List.mem_cons] at h
    rcases h with rfl | rfl | rfl | rfl | h
    · exact .inr ⟨_, div_four_lt a, rfl⟩
    · exact .inr ⟨_, second_lt a b, rfl⟩
    · exact .inr ⟨_, third_lt b c, rfl⟩
    · exact .inr ⟨_, by omega, rfl⟩
    · exact ih h

theorem decodeAfter?_encode (read bytes : Bytes) :
    decodeAfter? read (encode bytes) = some (read.reverse ++ bytes) := by
  fun_induction encode bytes generalizing read with
  | case1 => rw [decodeAfter?, List.append_nil]
  | case2 a => rw [decodeAfter?, lastByte?_digits]; rfl
  | case3 a b =>
    have hthird := digit_ne_filling (n := b.toNat % 16 * 4) (by omega)
    rw [decodeAfter?, lastTwoBytes?_digits]
    · rfl
    · exact fun h => hthird h
  | case4 a b c rest ih =>
    -- the group is full, for its last character is a digit
    have hfourth := digit_ne_filling (n := c.toNat % 64) (by omega)
    have hgroup := threeBytes?_digits a b c
    rw [decodeAfter?, hgroup]
    · dsimp only
      rw [ih, List.reverse_cons, List.reverse_cons, List.reverse_cons]
      simp
    · intro _ h
      exact absurd h hfourth
    · exact fun h => absurd h hfourth

/-- **The bytes of the text of a string of bytes are these bytes.** -/
theorem decode?_encode (bytes : Bytes) : decode? (encode bytes) = some bytes :=
  decodeAfter?_encode [] bytes

/-- What is read is read from its own text. -/
theorem encode_of_decodeAfter? {read bytes : Bytes} {text : List Char}
    (h : decodeAfter? read text = some bytes) :
    ∃ rest, bytes = read.reverse ++ rest ∧ encode rest = text := by
  fun_induction decodeAfter? read text with
  | case1 read =>
    obtain rfl := Option.some.inj h
    exact ⟨[], (List.append_nil _).symm, rfl⟩
  | case2 read a b =>
    obtain ⟨last, hlast, rfl⟩ := Option.map_eq_some_iff.1 h
    exact ⟨last, rfl, encode_of_lastByte? hlast⟩
  | case3 read a b c =>
    obtain ⟨last, hlast, rfl⟩ := Option.map_eq_some_iff.1 h
    exact ⟨last, rfl, encode_of_lastTwoBytes? hlast⟩
  | case4 read a b c d rest _ _ x y z hgroup ih =>
    obtain ⟨others, rfl, hothers⟩ := ih h
    refine ⟨x :: y :: z :: others, by simp, ?_⟩
    rw [encode_of_threeBytes? others hgroup, hothers]
  | case5 => cases h
  | case6 => cases h

/-- **A text has bytes if it is the text of these bytes, and no other text has them.** -/
theorem decode?_eq_some_iff {text : List Char} {bytes : Bytes} :
    decode? text = some bytes ↔ encode bytes = text := by
  constructor
  · intro h
    obtain ⟨rest, rfl, hrest⟩ := encode_of_decodeAfter? h
    exact hrest
  · rintro rfl
    exact decode?_encode bytes

/-- Dropping the blanks of such a text drops nothing. -/
theorem dropBlanks_encode (bytes : Bytes) : Text.dropBlanks (encode bytes) = encode bytes := by
  unfold Text.dropBlanks
  rw [List.filter_eq_self]
  intro c hc
  obtain rfl | ⟨n, hn, rfl⟩ := eq_of_mem_encode hc
  · rfl
  · rw [isBlank_digit hn]
    rfl

end Timepiece.Base64
