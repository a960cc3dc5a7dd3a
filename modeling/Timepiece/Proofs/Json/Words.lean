import Mathlib
import Timepiece.Json.Token
import Timepiece.Proofs.Text.Digits

/-!
# Rendered texts are cut into words

The words of a value are written one after the other, and cutting the text gives them back:
quoted texts undo their escapes, whole numbers are read digit by digit up to a character that
no number goes on with, and the marks between them stand for themselves.

## Main definitions

* `Token.Cut` — a text is cut into given words, whatever stands behind it.
* `Json.words` — the words of a value.
* `Json.Integral` — every number in a value is whole and fits 64 bits.

## Main results

* `Token.quotedText_flatMap_escape` — escaped characters are read back.
* `Token.unsignedNumber_toDigits` — digits are read back.
* `Json.tokens_renderChars` — **the rendered text of a value is cut into the words of the
  value.**
-/

namespace Timepiece

namespace Token

/-! ### Cutting -/

theorem tokensAfter_nil (done : List Token) : tokensAfter done [] = done.reverse := by
  rw [tokensAfter]
  rfl

theorem tokensAfter_cons {c : Char} (hspace : isSpace c = false) (done : List Token)
    (rest : List Char) :
    tokensAfter done (c :: rest) = tokensAfter ((word c rest).1 :: done) (word c rest).2 := by
  have hdrop : (c :: rest).dropWhile isSpace = c :: rest := by
    rw [List.dropWhile_cons, hspace]
    rfl
  rw [tokensAfter]
  split
  · next h => exact absurd (hdrop.symm.trans h) (List.cons_ne_nil c rest)
  · next first others h =>
    rw [hdrop] at h
    obtain ⟨rfl, rfl⟩ := List.cons.inj h
    rfl

/-- A number does not go on with what follows. -/
def Apart (rest : List Char) : Prop :=
  ∀ c ∈ rest.head?, isDigit c = false ∧ c ≠ '.' ∧ c ≠ 'e' ∧ c ≠ 'E'

theorem apart_nil : Apart [] := nofun

theorem apart_cons {c : Char} {rest : List Char}
    (h : isDigit c = false ∧ c ≠ '.' ∧ c ≠ 'e' ∧ c ≠ 'E') : Apart (c :: rest) := by
  intro first hfirst
  obtain rfl := Option.some.inj hfirst
  exact h

/-- A text is cut into given words, if what stands behind it does not go on with the last. -/
def Cut (text : List Char) (words : List Token) : Prop :=
  ∀ done rest, Apart rest → tokensAfter done (text ++ rest) =
    tokensAfter (words.reverse ++ done) rest

namespace Cut

variable {c : Char} {text more : List Char} {t : Token} {words others : List Token}

/-- A word, and what is left of it. -/
theorem single (hspace : isSpace c = false)
    (hword : ∀ rest, Apart rest → word c (text ++ rest) = (t, rest)) : Cut (c :: text) [t] := by
  intro done rest hrest
  rw [List.cons_append, tokensAfter_cons hspace, hword rest hrest]
  rfl

theorem append (h : Cut text words) (hmore : Cut more others) (hapart : ∀ rest, Apart (more ++ rest)) :
    Cut (text ++ more) (words ++ others) := by
  intro done rest hrest
  rw [List.append_assoc, h done _ (hapart rest), hmore _ rest hrest, List.reverse_append,
    List.append_assoc]

/-- A word that ends in itself may have anything behind it. -/
theorem cons_append (hspace : isSpace c = false) (hword : ∀ rest, word c (text ++ rest) = (t, rest))
    (h : Cut more others) : Cut (c :: text ++ more) (t :: others) := by
  intro done rest hrest
  rw [List.append_assoc, List.cons_append, tokensAfter_cons hspace, hword, h _ rest hrest,
    List.reverse_cons, List.append_assoc]
  rfl

/-- A mark is a word of its own. -/
theorem cons (hspace : isSpace c = false) (hword : ∀ rest, word c rest = (t, rest))
    (h : Cut more others) : Cut (c :: more) (t :: others) := by
  rw [← List.singleton_append]
  exact cons_append hspace hword h

end Cut

/-! ### Quoted texts -/

theorem hexValue?_hexDigit {n : Nat} (h : n < 16) : hexValue? (hexDigit n) = some n := by
  have hall : ∀ n < 16, hexValue? (hexDigit n) = some n := by decide
  exact hall n h

theorem quotedText_simpleEscape {c letter : Char} (h : simpleEscape? letter = some c)
    (q : Quoted) (rest : List Char) :
    quotedText q ('\\' :: letter :: rest) = quotedText (q.add c) rest := by
  have hletter : letter ≠ 'u' := by
    rintro rfl
    exact nomatch h
  rw [quotedText.eq_def]
  simp [hletter, h]

/-- A control character without an escape of its own is written as its number. -/
theorem quotedText_numberedEscape {c : Char} (h : c.toNat < 32) (q : Quoted) (rest : List Char) :
    quotedText q ('\\' :: 'u' :: '0' :: '0' :: hexDigit (c.toNat / 16) :: hexDigit (c.toNat % 16) ::
      rest) = quotedText (q.add c) rest := by
  have hzero : hexValue? '0' = some 0 := rfl
  have hunit : hexUnit? '0' '0' (hexDigit (c.toNat / 16)) (hexDigit (c.toNat % 16)) =
      some c.toNat := by
    simp only [hexUnit?, hzero, hexValue?_hexDigit (n := c.toNat / 16) (by omega),
      hexValue?_hexDigit (n := c.toNat % 16) (by omega), Option.bind_eq_bind, Option.bind_some,
      Option.some.injEq]
    omega
  have hadd : q.addUnit c.toNat = q.add c := by
    rw [Quoted.addUnit, if_neg (by omega), if_neg (by omega), Char.ofNat_toNat]
  rw [quotedText, hunit]
  exact congrArg (quotedText · rest) hadd

theorem quotedText_cons {c : Char} (hquote : c ≠ '"') (hbackslash : c ≠ '\\')
    (hcontrol : ¬ c.toNat < 32) (q : Quoted) (rest : List Char) :
    quotedText q (c :: rest) = quotedText (q.add c) rest := by
  rw [quotedText.eq_def]
  split <;> simp_all

/-- Every escape stands for its character. -/
theorem quotedText_escape (c : Char) (q : Quoted) (rest : List Char) :
    quotedText q (Json.escape c ++ rest) = quotedText (q.add c) rest := by
  unfold Json.escape
  split
  · next h => subst h; exact quotedText_simpleEscape rfl q rest
  · next hquote =>
    split
    · next h => subst h; exact quotedText_simpleEscape rfl q rest
    · next hbackslash =>
      iterate 5
        split
        · next h => subst h; exact quotedText_simpleEscape rfl q rest
      split
      · next hcontrol => exact quotedText_numberedEscape hcontrol q rest
      · next hcontrol => exact quotedText_cons hquote hbackslash hcontrol q rest

/-- **Escaped characters are read back.** -/
theorem quotedText_flatMap_escape (text : List Char) {q : Quoted} (hhalf : q.half = none)
    (hpaired : q.paired = true) (rest : List Char) :
    quotedText q (text.flatMap Json.escape ++ '"' :: rest) =
      (.text (some (String.ofList (q.done.reverse ++ text))), rest) := by
  induction text generalizing q with
  | nil => simp [quotedText, Quoted.close, hhalf, hpaired]
  | cons c text ih =>
    have hadd : (q.add c).paired = true := by simp [Quoted.add, hhalf, hpaired]
    rw [List.flatMap_cons, List.append_assoc, quotedText_escape, ih rfl hadd, Quoted.add,
      List.reverse_cons, List.append_assoc]
    rfl

/-- A quoted text ends in itself. -/
theorem Cut.quote_append (s : String) {more : List Char} {others : List Token}
    (h : Cut more others) : Cut (Json.quote s ++ more) (.text (some s) :: others) := by
  refine Cut.cons_append rfl (fun rest => ?_) h
  show quotedText .start (s.toList.flatMap Json.escape ++ ['"'] ++ rest) = _
  rw [List.append_assoc]
  exact (quotedText_flatMap_escape s.toList rfl rfl rest).trans (by simp [Quoted.start])

/-- A key and its colon. -/
theorem Cut.key_append (key : String) {more : List Char} {others : List Token}
    (h : Cut more others) :
    Cut (Json.quote key ++ ':' :: more) (.text (some key) :: .colon :: others) :=
  Cut.quote_append key (.cons rfl (fun _ => rfl) h)

/-! ### Numbers -/

theorem isDigit_of_mem_toDigits {n : Nat} {c : Char} (h : c ∈ Nat.toDigits 10 n) :
    isDigit c = true := by
  have hdigit := Nat.isDigit_of_mem_toDigits (by decide) (by decide) h
  simpa [isDigit, Char.isDigit, Char.le_def] using hdigit

/-- No number but zero starts with a zero. -/
theorem head?_toDigits_ne {n : Nat} (h : n ≠ 0) : (Nat.toDigits 10 n).head? ≠ some '0' := by
  induction n using Nat.strongRecOn with
  | _ n ih =>
    rw [Nat.toDigits_eq_if (by decide)]
    split
    · next hlt =>
      have hall : ∀ n < 10, n ≠ 0 → [Nat.digitChar n].head? ≠ some '0' := by decide
      exact hall n hlt h
    · next hge =>
      rw [List.head?_append_of_ne_nil _ Nat.toDigits_ne_nil]
      exact ih (n / 10) (by omega) (by omega)

/-- Digits are taken as long as the number that they make up fits. -/
theorem takeDigits_eq {digits : List Char} {n taken : Nat}
    (h : Nat.ofDigitChars 10 digits n ≤ maxUnsigned) :
    takeDigits n taken digits = (Nat.ofDigitChars 10 digits n, taken + digits.length) := by
  induction digits generalizing n taken with
  | nil => rfl
  | cons c rest ih =>
    rw [Nat.ofDigitChars_cons, Nat.mul_comm] at h ⊢
    have hle := Nat.le_trans (Text.le_ofDigitChars rest _) h
    rw [takeDigits, if_neg (Nat.not_lt.2 hle), ih h, List.length_cons, Nat.add_assoc,
      Nat.add_comm 1]

theorem value_toDigits {n : Nat} (negative : Bool) (h : n ≤ maxUnsigned) :
    (NumberPieces.mk negative (Nat.toDigits 10 n) none none).value =
      if negative = false then some (.integer n)
      else if n = 0 ∨ 0x8000000000000000 < n then some (.float (-(UInt64.ofNat n).toFloat))
      else some (.integer (-n)) := by
  have htake : takeDigits 0 0 (Nat.toDigits 10 n) = (n, (Nat.toDigits 10 n).length) := by
    rw [takeDigits_eq, Nat.ofDigitChars_ten_toDigits, Nat.zero_add]
    rwa [Nat.ofDigitChars_ten_toDigits]
  unfold NumberPieces.value
  simp [htake]

/-- Digits are read up to a character that no number goes on with. -/
theorem unsignedNumber_toDigits (negative : Bool) (n : Nat) {rest : List Char}
    (hrest : Apart rest) :
    unsignedNumber negative (Nat.toDigits 10 n ++ rest) =
      (.number (NumberPieces.mk negative (Nat.toDigits 10 n) none none).value, rest) := by
  have hdigits : ∀ c ∈ Nat.toDigits 10 n, isDigit c = true := fun _ => isDigit_of_mem_toDigits
  have hstop : rest.takeWhile isDigit = [] ∧ rest.dropWhile isDigit = rest := by
    cases rest with
    | nil => exact ⟨rfl, rfl⟩
    | cons c rest => simp [(hrest c rfl).1]
  have hzero : ¬ ((Nat.toDigits 10 n).head? = some '0' ∧ 1 < (Nat.toDigits 10 n).length) := by
    rintro ⟨hhead, hlength⟩
    by_cases h : n = 0
    · subst h
      exact absurd hlength (by decide)
    · exact head?_toDigits_ne h hhead
  unfold unsignedNumber
  rw [List.takeWhile_append_of_pos hdigits, List.dropWhile_append_of_pos hdigits, hstop.1, hstop.2,
    List.append_nil]
  simp only [List.isEmpty_iff, Nat.toDigits_ne_nil, if_false, hzero]
  cases rest with
  | nil => rfl
  | cons c rest =>
    obtain ⟨-, hpoint, he, hE⟩ := hrest c rfl
    split
    · next h => exact absurd (List.cons.inj h).1 hpoint
    · rw [afterDigits, if_neg (not_or.2 ⟨he, hE⟩)]

/-- A digit is no mark, no letter and no blank. -/
theorem ne_of_isDigit {c other : Char} (h : isDigit c = true) (hother : isDigit other = false) :
    c ≠ other := by
  rintro rfl
  rw [h] at hother
  exact nomatch hother

theorem isSpace_of_isDigit {c : Char} (h : isDigit c = true) : isSpace c = false := by
  unfold isSpace
  rw [beq_false_of_ne (ne_of_isDigit h rfl), beq_false_of_ne (ne_of_isDigit h rfl),
    beq_false_of_ne (ne_of_isDigit h rfl), beq_false_of_ne (ne_of_isDigit h rfl)]
  rfl

theorem word_digit {c : Char} (h : isDigit c = true) (rest : List Char) :
    word c rest = unsignedNumber false (c :: rest) := by
  unfold word
  iterate 11 rw [if_neg (ne_of_isDigit h rfl)]
  rw [if_pos h]

/-- Whole numbers are read back. -/
theorem cut_integerText {n : Int} (hlow : -0x8000000000000000 ≤ n) (hhigh : n ≤ maxUnsigned) :
    Cut (Json.integerText n) [.number (some (.integer n))] := by
  have hmax : maxUnsigned = 0xFFFFFFFFFFFFFFFF := rfl
  unfold Json.integerText
  split
  · next hneg =>
    refine Cut.single rfl fun rest hrest => ?_
    show unsignedNumber true _ = _
    rw [unsignedNumber_toDigits true n.natAbs hrest, value_toDigits true (by omega),
      if_neg (by decide), if_neg (by omega)]
    congr 4
    omega
  · next hneg =>
    have hvalue : (NumberPieces.mk false (Nat.toDigits 10 n.natAbs) none none).value =
        some (.integer n) := by
      rw [value_toDigits false (by omega), if_pos rfl]
      congr 2
      omega
    have hread := fun {rest} (hrest : Apart rest) => unsignedNumber_toDigits false n.natAbs hrest
    have hdigits : ∀ c ∈ Nat.toDigits 10 n.natAbs, isDigit c = true :=
      fun _ => isDigit_of_mem_toDigits
    -- the first digit tells that a number starts
    cases htext : Nat.toDigits 10 n.natAbs with
    | nil => exact absurd htext Nat.toDigits_ne_nil
    | cons c digits =>
      rw [htext] at hdigits hread hvalue
      have hc := hdigits c List.mem_cons_self
      refine Cut.single (isSpace_of_isDigit hc) fun rest hrest => ?_
      rw [word_digit hc, ← List.cons_append, hread hrest, hvalue]

end Token

namespace Json

/-! ### Values -/

mutual

/-- Every number in a value is whole and fits 64 bits. -/
def Integral : Json → Prop
  | .number (.integer n) => -0x8000000000000000 ≤ n ∧ n ≤ Token.maxUnsigned
  | .number (.float _) => False
  | .array items => ItemsIntegral items
  | .object members => MembersIntegral members
  | _ => True

/-- Every number in the items of an array is whole and fits 64 bits. -/
def ItemsIntegral : List Json → Prop
  | [] => True
  | item :: rest => item.Integral ∧ ItemsIntegral rest

/-- Every number in the members of an object is whole and fits 64 bits. -/
def MembersIntegral : List (String × Json) → Prop
  | [] => True
  | (_, value) :: rest => value.Integral ∧ MembersIntegral rest

end

mutual

/-- The words of a value. -/
def words : Json → List Token
  | .null => [.null]
  | .bool b => [.bool b]
  | .number n => [.number (some n)]
  | .text s => [.text (some s)]
  | .array [] => [.openArray, .closeArray]
  | .array (first :: others) => .openArray :: first.words ++ itemWords others
  | .object [] => [.openObject, .closeObject]
  | .object ((key, first) :: others) =>
    .openObject :: .text (some key) :: .colon :: first.words ++ memberWords others

/-- The words after an item of an array. -/
def itemWords : List Json → List Token
  | [] => [.closeArray]
  | item :: rest => .comma :: item.words ++ itemWords rest

/-- The words after a member of an object. -/
def memberWords : List (String × Json) → List Token
  | [] => [.closeObject]
  | (key, value) :: rest =>
    .comma :: .text (some key) :: .colon :: value.words ++ memberWords rest

end

theorem commaSeparated_cons (piece : List Char) (pieces : List (List Char)) :
    commaSeparated (piece :: pieces) = piece ++ pieces.flatMap fun piece => ',' :: piece := by
  induction pieces generalizing piece with
  | nil => simp [commaSeparated]
  | cons next pieces ih =>
    rw [commaSeparated, List.intercalate_cons_cons, ← commaSeparated, ih, List.flatMap_cons,
      List.append_assoc]
    rfl

/-- What stands between the items of an array and behind them goes on with no number. -/
theorem apart_pieces {close : Char}
    (hclose : Token.isDigit close = false ∧ close ≠ '.' ∧ close ≠ 'e' ∧ close ≠ 'E')
    (pieces : List (List Char)) (rest : List Char) :
    Token.Apart ((pieces.flatMap fun piece => ',' :: piece) ++ [close] ++ rest) := by
  cases pieces with
  | nil => exact Token.apart_cons hclose
  | cons piece pieces => exact Token.apart_cons (by decide)

mutual

theorem cut_renderChars : ∀ value : Json, value.Integral → Token.Cut value.renderChars value.words
  | .null, _ => .single rfl fun _ _ => rfl
  | .bool true, _ => .single rfl fun _ _ => rfl
  | .bool false, _ => .single rfl fun _ _ => rfl
  | .number (.integer n), h => Token.cut_integerText h.1 h.2
  | .number (.float _), h => h.elim
  | .text s, _ => by
    have hquote : Token.Cut (quote s ++ []) [.text (some s)] := .quote_append s fun _ _ _ => rfl
    rwa [List.append_nil] at hquote
  | .array [], _ => .cons rfl (fun _ => rfl) (.single rfl fun _ _ => rfl)
  | .array (first :: others), h => by
    have hothers := cut_items others h.2
    have hitems := (cut_renderChars first h.1).append hothers (apart_pieces (by decide) _)
    rw [renderChars, renderItems, commaSeparated_cons, words, List.cons_append, List.append_assoc]
    exact .cons rfl (fun _ => rfl) hitems
  | .object [], _ => .cons rfl (fun _ => rfl) (.single rfl fun _ _ => rfl)
  | .object ((key, first) :: others), h => by
    have hothers := cut_members others h.2
    have hvalue := (cut_renderChars first h.1).append hothers (apart_pieces (by decide) _)
    rw [renderChars, renderMembers, commaSeparated_cons, words, List.cons_append, List.append_assoc,
      List.append_assoc, List.cons_append]
    exact .cons rfl (fun _ => rfl) (.key_append key hvalue)

theorem cut_items : ∀ items : List Json, ItemsIntegral items →
    Token.Cut ((renderItems items).flatMap (fun piece => ',' :: piece) ++ [']']) (itemWords items)
  | [], _ => .single rfl fun _ _ => rfl
  | item :: rest, h => by
    have hrest := cut_items rest h.2
    have hitem := (cut_renderChars item h.1).append hrest (apart_pieces (by decide) _)
    rw [renderItems, List.flatMap_cons, itemWords, List.append_assoc, List.cons_append]
    exact .cons rfl (fun _ => rfl) hitem

theorem cut_members : ∀ members : List (String × Json), MembersIntegral members →
    Token.Cut ((renderMembers members).flatMap (fun piece => ',' :: piece) ++ ['}'])
      (memberWords members)
  | [], _ => .single rfl fun _ _ => rfl
  | (key, value) :: rest, h => by
    have hrest := cut_members rest h.2
    have hvalue := (cut_renderChars value h.1).append hrest (apart_pieces (by decide) _)
    rw [renderMembers, List.flatMap_cons, memberWords, List.append_assoc, List.cons_append,
      List.append_assoc, List.cons_append]
    exact .cons rfl (fun _ => rfl) (.key_append key hvalue)

end

/-- **The rendered text of a value is cut into the words of the value.** -/
theorem tokens_renderChars {value : Json} (h : value.Integral) :
    tokens value.renderChars = value.words := by
  have hcut := cut_renderChars value h [] [] Token.apart_nil
  rwa [List.append_nil, List.append_nil, Token.tokensAfter_nil, List.reverse_reverse] at hcut

end Json

end Timepiece
