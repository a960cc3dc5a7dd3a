import Mathlib
import Timepiece.External.Value
import Timepiece.Proofs.Text.Integers

/-!
# Texts that the watch can show

Folding is a clean projection of texts to ASCII: what it gives is ASCII, ASCII stays as it is, and
every character is folded by itself, into one letter or two.  The bytes of folded text are its
letters, so that a text may be cut anywhere, and a text that was folded before is encoded like
itself.  The decimal text of an integer is ASCII already.

## Main definitions

* `Text.ProjectsToAscii` — a map of texts is a clean projection to ASCII.

## Main results

* `Text.projectsToAscii_foldAscii` — **folding is a clean projection to ASCII.**
* `Value.encode_folded` — **what is sent of a text is the beginning of its folded form.**
-/

namespace Timepiece

namespace Text

variable {c : Char} {text : List Char}

/-! ### One character -/

/-- Whatever stands for a letter is one ASCII letter or two. -/
theorem replacement_of_mem {group : List Char × List Char} (h : group ∈ foldings) :
    (∀ c ∈ group.2, isAscii c = true) ∧ 1 ≤ group.2.length ∧ group.2.length ≤ 2 := by
  have hall : foldings.all (fun group => group.2.all isAscii &&
      (Nat.ble 1 group.2.length && Nat.ble group.2.length 2)) = true := rfl
  have hgroup := List.all_eq_true.1 hall group h
  simpa using hgroup

theorem foldChar_of_isAscii (h : isAscii c = true) : foldChar c = [c] := by
  rw [foldChar, if_pos h]

/-- A character is folded into one ASCII character or two. -/
theorem replacement_foldChar (c : Char) : (∀ d ∈ foldChar c, isAscii d = true) ∧
    1 ≤ (foldChar c).length ∧ (foldChar c).length ≤ 2 := by
  by_cases hc : isAscii c = true
  · rw [foldChar_of_isAscii hc]
    refine ⟨fun d hd => ?_, Nat.le_refl 1, Nat.le_succ 1⟩
    rwa [List.mem_singleton.1 hd]
  · rw [foldChar, if_neg hc]
    split
    · next group hfind => exact replacement_of_mem (List.mem_of_find?_eq_some hfind)
    · exact ⟨fun d hd => by rw [List.mem_singleton.1 hd]; decide, Nat.le_refl 1, Nat.le_succ 1⟩

/-! ### Texts -/

theorem isAscii_of_mem_foldAscii (h : c ∈ foldAscii text) : isAscii c = true := by
  obtain ⟨d, -, hc⟩ := List.mem_flatMap.1 h
  exact (replacement_foldChar d).1 c hc

/-- ASCII stays as it is. -/
theorem foldAscii_of_isAscii (h : ∀ c ∈ text, isAscii c = true) : foldAscii text = text := by
  induction text with
  | nil => rfl
  | cons c rest ih =>
    obtain ⟨hc, hrest⟩ := List.forall_mem_cons.1 h
    have hcons : foldAscii (c :: rest) = foldChar c ++ foldAscii rest := List.flatMap_cons
    rw [hcons, foldChar_of_isAscii hc, ih hrest]
    rfl

theorem length_foldAscii (text : List Char) :
    text.length ≤ (foldAscii text).length ∧ (foldAscii text).length ≤ 2 * text.length := by
  induction text with
  | nil => decide
  | cons c rest ih =>
    have hcons : foldAscii (c :: rest) = foldChar c ++ foldAscii rest := List.flatMap_cons
    obtain ⟨-, hone, htwo⟩ := replacement_foldChar c
    rw [hcons, List.length_append, List.length_cons]
    omega

/-- A map of texts is a clean projection to ASCII. -/
structure ProjectsToAscii (fold : List Char → List Char) : Prop where
  ascii (a : List Char) : ∀ c ∈ fold a, c.toNat < 0x80
  idempotent (a : List Char) : fold (fold a) = fold a
  fixed_iff (a : List Char) : fold a = a ↔ ∀ c ∈ a, c.toNat < 0x80
  append (a b : List Char) : fold (a ++ b) = fold a ++ fold b
  le_length (a : List Char) : a.length ≤ (fold a).length
  length_le (a : List Char) : (fold a).length ≤ 2 * a.length

theorem isAscii_iff : isAscii c = true ↔ c.toNat < 0x80 := decide_eq_true_iff

/-- **Folding is a clean projection to ASCII.** -/
theorem projectsToAscii_foldAscii : ProjectsToAscii foldAscii where
  ascii := fun _ _ hc => isAscii_iff.1 (isAscii_of_mem_foldAscii hc)
  idempotent := fun _ => foldAscii_of_isAscii fun _ => isAscii_of_mem_foldAscii
  fixed_iff := fun a => by
    constructor
    · intro heq c hc
      rw [← heq] at hc
      exact isAscii_iff.1 (isAscii_of_mem_foldAscii hc)
    · intro h
      exact foldAscii_of_isAscii fun c hc => isAscii_iff.2 (h c hc)
  append := foldAscii_append
  le_length := fun a => (length_foldAscii a).1
  length_le := fun a => (length_foldAscii a).2

/-! ### Bytes -/

/-- The bytes of an ASCII text are its characters. -/
theorem toUTF8_of_isAscii (h : ∀ c ∈ text, isAscii c = true) :
    (String.ofList text).toUTF8.data.toList = asciiBytes text := by
  have hchar : ∀ c ∈ text, String.utf8EncodeChar c = [UInt8.ofNat c.toNat] := by
    intro c hc
    have hlow : c.val.toNat ≤ 0x7f := Nat.le_of_lt_succ (isAscii_iff.1 (h c hc))
    rw [String.utf8EncodeChar, if_pos hlow]
    rfl
  have hflat : text.flatMap String.utf8EncodeChar = text.map fun c => UInt8.ofNat c.toNat := by
    rw [List.flatMap_congr hchar]
    exact List.flatMap_pure_eq_map _ text
  rw [String.toUTF8, String.toByteArray_ofList, List.utf8Encode, hflat]
  simp [asciiBytes]

theorem lt_of_mem_asciiBytes (h : ∀ c ∈ text, isAscii c = true) {byte : UInt8}
    (hbyte : byte ∈ asciiBytes text) : byte < 0x80 := by
  obtain ⟨c, hc, rfl⟩ := List.mem_map.1 hbyte
  have hlow := isAscii_iff.1 (h c hc)
  rw [UInt8.lt_iff_toNat_lt, UInt8.toNat_ofNat', Nat.mod_eq_of_lt (by omega)]
  exact hlow

/-- The decimal text of an integer is ASCII. -/
theorem isAscii_of_mem_integerText {n : Int} (h : c ∈ Json.integerText n) : isAscii c = true := by
  have hdigit : ∀ d : Char, d.isDigit = true → isAscii d = true := by
    intro d hd
    have hlow : 48 ≤ d.toNat ∧ d.toNat ≤ 57 := by
      simpa [Char.isDigit, UInt32.le_iff_toNat_le] using hd
    exact isAscii_iff.2 (by omega)
  unfold Json.integerText at h
  split at h
  · rcases List.mem_cons.1 h with rfl | h
    · decide
    · exact hdigit c (isDigit_of_mem_toDigits h)
  · exact hdigit c (isDigit_of_mem_toDigits h)

theorem integerText_eq_toString (n : Int) : String.ofList (Json.integerText n) = toString n := by
  unfold Json.integerText
  cases n with
  | ofNat m =>
    rw [if_neg (show ¬ Int.ofNat m < 0 by simp)]
    rfl
  | negSucc m =>
    rw [if_pos (Int.negSucc_lt_zero m)]
    have hminus : toString (Int.negSucc m) = "-" ++ String.ofList (Nat.toDigits 10 (m + 1)) := rfl
    rw [hminus, ← String.toList_inj]
    simp

theorem foldAscii_integerText (n : Int) :
    foldAscii (Json.integerText n) = Json.integerText n :=
  foldAscii_of_isAscii fun _ => isAscii_of_mem_integerText

theorem toUTF8_toString (n : Int) :
    (toString n).toUTF8.data.toList = asciiBytes (Json.integerText n) := by
  rw [← integerText_eq_toString]
  exact toUTF8_of_isAscii fun _ => isAscii_of_mem_integerText

end Text

/-! ### Reports -/

namespace Value

variable {property : Property}

/-- What is sent of a report for a text is the beginning of its folded text. -/
theorem encode_eq_take (h : property.kind = .text) (report : Option Value) :
    encode property report = (Text.asciiBytes (folded report)).take property.range.raw.toNat := by
  rw [encode, h]
  rfl

theorem folded_folded (text : String) :
    folded (some (.text (String.ofList (Text.foldAscii text.toList)))) =
      folded (some (.text text)) := by
  rw [folded, display, String.toList_ofList, Text.projectsToAscii_foldAscii.idempotent]
  rfl

theorem folded_integer (n : Int) : folded (some (.integer n)) = Json.integerText n := by
  rw [folded, display, String.toList_ofList, Text.foldAscii_integerText]

/-- An integer is folded like its decimal text. -/
theorem folded_toString (n : Int) :
    folded (some (.text (toString n))) = folded (some (.integer n)) := by
  rw [← Text.integerText_eq_toString]
  rfl

/-- **What is sent of a text is the beginning of its folded form**, and an integer is sent like its
decimal text. -/
theorem encode_folded (h : property.kind = .text) :
    Text.ProjectsToAscii Text.foldAscii ∧
    (∀ text : String, let whole := String.ofList (Text.foldAscii text.toList)
      let sent := encode property (some (.text text))
      sent = whole.toUTF8.data.toList.take property.range.raw.toNat ∧
      sent.length = min property.range.raw.toNat whole.length ∧
      (∀ byte ∈ sent, byte < 0x80) ∧ encode property (some (.text whole)) = sent) ∧
    ∀ n : Int, encode property (some (.integer n)) = encode property (some (.text (toString n))) ∧
      encode property (some (.integer n)) =
        (toString n).toUTF8.data.toList.take property.range.raw.toNat := by
  refine ⟨Text.projectsToAscii_foldAscii, fun text => ?_, fun n => ?_⟩
  · have hascii : ∀ c ∈ Text.foldAscii text.toList, Text.isAscii c = true :=
      fun _ => Text.isAscii_of_mem_foldAscii
    have hsent : encode property (some (.text text)) =
        (Text.asciiBytes (Text.foldAscii text.toList)).take property.range.raw.toNat :=
      encode_eq_take h _
    refine ⟨?_, ?_, ?_, ?_⟩
    · rw [hsent, Text.toUTF8_of_isAscii hascii]
    · rw [hsent, List.length_take, Text.asciiBytes, List.length_map, String.length_ofList]
    · intro byte hbyte
      rw [hsent] at hbyte
      exact Text.lt_of_mem_asciiBytes hascii (List.mem_of_mem_take hbyte)
    · rw [encode_eq_take h, encode_eq_take h, folded_folded]
  · constructor
    · rw [encode_eq_take h, encode_eq_take h, folded_toString]
    · rw [encode_eq_take h, folded_integer, Text.toUTF8_toString]

/-- The name of a street with an umlaut and a sharp s is cut to six letters. -/
theorem encode_folded_street :
    let property : Property := ⟨"weather", "street", .text, ⟨6⟩⟩
    property.kind = .text ∧
      encode property (some (.text "Zürich Straße")) = "Zurich".toUTF8.data.toList := by
  intro property
  refine ⟨rfl, ?_⟩
  obtain ⟨-, hsent, -⟩ := @encode_folded property rfl
  rw [(hsent "Zürich Straße").1]
  decide +kernel

end Value

end Timepiece
