import Mathlib
import Timepiece.Proofs.Resolution.Meaning
import Timepiece.Proofs.Text.Integers

/-!
# What symbols stand for

A symbol that is compared with a field stands for a number.  With an integer it stands for the
integer that it spells, when the blanks around it are left out; with an enumeration it stands for
its place among the symbols that are declared, and for the last one if it is declared twice.  A
literal without a field is an integer itself, or spells one.

A symbol or a literal is turned into a number for which there is room if and only if it stands for
this number.

## Main definitions

* `LastPlace` — the last place of a symbol.
* `ModelField.Denotes`, `Literal.Denotes` — the number that a symbol or literal stands for.

## Main results

* `Source.literalNumber_iff` — **literals become the numbers for which they stand**.
* `optionOrdinal_eq_ok_iff` — **so do the options of a choice**.
* `ModelField.Denotes.eq_of_enumeration` — among declared symbols a number belongs to one.
-/

namespace Timepiece

/-! ### Places of symbols -/

/-- The symbol stands at the place, and at none behind it. -/
def LastPlace (symbols : List String) (symbol : String) (place : Nat) : Prop :=
  symbols[place]? = some symbol ∧ ∀ other, symbols[other]? = some symbol → other ≤ place

namespace LastPlace

variable {symbols : List String} {symbol last : String} {place other : Nat}

theorem lt (h : LastPlace symbols symbol place) : place < symbols.length :=
  (List.getElem?_eq_some_iff.1 h.1).1

theorem unique (h : LastPlace symbols symbol place) (h' : LastPlace symbols symbol other) :
    place = other := Nat.le_antisymm (h'.2 _ h.1) (h.2 _ h'.1)

theorem concat_self (symbols : List String) (last : String) :
    LastPlace (symbols ++ [last]) last symbols.length := by
  refine ⟨by simp, fun other hother => ?_⟩
  obtain ⟨hlt, -⟩ := List.getElem?_eq_some_iff.1 hother
  rw [List.length_append, List.length_singleton] at hlt
  omega

theorem concat_of_ne (h : symbol ≠ last) :
    LastPlace (symbols ++ [last]) symbol place ↔ LastPlace symbols symbol place := by
  -- the new place is not one of the symbol
  have hsame : ∀ place : Nat, (symbols ++ [last])[place]? = some symbol ↔
      symbols[place]? = some symbol := by
    intro place
    by_cases hlt : place < symbols.length
    · rw [List.getElem?_append_left hlt]
    · rw [List.getElem?_append_right (Nat.not_lt.1 hlt),
        List.getElem?_eq_none (Nat.not_lt.1 hlt)]
      cases place - symbols.length with
      | zero => simp [h.symm]
      | succ => simp
  unfold LastPlace
  simp only [hsame]

end LastPlace

/-- What the symbols of a list mean after one more. -/
theorem Meaning.ofSymbols_concat (symbols : List String) (last : String) :
    ofSymbols (symbols ++ [last]) = .enumeration
      (Members.put (Members.ofList (symbols.zipIdx.map fun (symbol, i) => (symbol, (i : Int))))
        last symbols.length) := by
  rw [ofSymbols, List.zipIdx_append, List.map_append, Members.ofList, List.foldl_append,
    Nat.zero_add]
  rfl

/-- The number of a symbol is its last place. -/
theorem Meaning.ordinal_ofSymbols_iff {symbols : List String} {symbol : String} {n : Int} :
    (ofSymbols symbols).ordinal symbol = .ok n ↔
      ∃ place : Nat, n = place ∧ LastPlace symbols symbol place := by
  induction symbols using List.reverseRecOn with
  | nil => simp [ofSymbols, Members.ofList, ordinal, LastPlace]
  | append_singleton symbols last ih =>
    rw [ofSymbols_concat, ordinal]
    by_cases h : symbol = last
    · subst h
      rw [Members.find?_put_self]
      constructor
      · intro heq
        exact ⟨_, (Except.ok.inj heq).symm, .concat_self symbols symbol⟩
      · rintro ⟨place, rfl, hplace⟩
        rw [hplace.unique (.concat_self symbols symbol)]
    · rw [Members.find?_put_of_ne _ _ h]
      simp only [LastPlace.concat_of_ne h]
      exact ih

/-! ### Symbols -/

/-- The number that a symbol stands for when it is compared with a field. -/
def ModelField.Denotes (field : ModelField) (symbol : String) (n : Int) : Prop :=
  match field with
  | integer _ _ _ _ => Text.Spells (Text.trim symbol.toList) n
  | enumeration symbols _ _ => ∃ place : Nat, n = place ∧ LastPlace symbols symbol place

/-- The integer that a literal is, or that it spells when the blanks around it are left out. -/
def Literal.Spells : Literal → Int → Prop
  | integer m, n => n = m
  | text s, n => Text.Spells (Text.trim s.toList) n

/-- The number that a literal stands for, when it is compared with a field or with none. -/
def Literal.Denotes (field : Option ModelField) (literal : Literal) (n : Int) : Prop :=
  match field with
  | some (.enumeration symbols value overflow) =>
    (ModelField.enumeration symbols value overflow).Denotes literal.symbol n
  | _ => literal.Spells n

/-- An integer of 32 bits has 64 bits. -/
theorem inSigned64_of_inSigned32 {n : Int} (h : Text.inSigned32 n = true) :
    Text.inSigned64 n = true := by
  simp only [Text.inSigned32, Text.inSigned64, Bool.and_eq_true, decide_eq_true_eq] at *
  omega

namespace ModelField

variable {field : ModelField} {symbol other : String} {n : Int}

/-- Different symbols of an enumeration stand for different numbers. -/
theorem Denotes.eq_of_enumeration {symbols : List String} {value : Option Source}
    {overflow : Bool} (h : (enumeration symbols value overflow).Denotes symbol n)
    (h' : (enumeration symbols value overflow).Denotes other n) : symbol = other := by
  obtain ⟨place, rfl, hplace⟩ := h
  obtain ⟨place', heq, hplace'⟩ := h'
  obtain rfl := Int.ofNat.inj heq
  exact Option.some.inj (hplace.1.symm.trans hplace'.1)

/-- Where there is room, a symbol has the number for which it stands. -/
theorem ordinal_meaning_iff (hin : Text.inSigned64 n = true) :
    field.meaning.ordinal symbol = .ok n ↔ field.Denotes symbol n := by
  cases field with
  | integer =>
    show Meaning.integer.ordinal symbol = .ok n ↔ Text.Spells (Text.trim symbol.toList) n
    rw [← and_iff_left (a := Text.Spells _ n) hin, ← Text.signed64?_eq_some_iff, Meaning.ordinal]
    cases Text.signed64? (Text.trim symbol.toList) <;> simp
  | enumeration => exact Meaning.ordinal_ofSymbols_iff

end ModelField

/-! ### Literals -/

namespace Literal

variable {literal : Literal} {n : Int}

/-- The symbol of a literal spells what the literal does. -/
theorem spells_symbol_iff :
    Text.Spells (Text.trim literal.symbol.toList) n ↔ literal.Spells n := by
  cases literal with
  | integer m =>
    show Text.Spells (Text.trim (String.ofList (Json.integerText m)).toList) n ↔ n = m
    rw [String.toList_ofList, Text.trim_integerText]
    constructor
    · intro h
      exact h.unique (Text.spells_integerText m)
    · rintro rfl
      exact Text.spells_integerText n
  | text s => exact Iff.rfl

/-- A symbol is compared with an integer as if there were no field. -/
theorem denotes_some_iff {field : ModelField} :
    literal.Denotes (some field) n ↔ field.Denotes literal.symbol n := by
  cases field with
  | integer => exact spells_symbol_iff.symm
  | enumeration => exact Iff.rfl

end Literal

/-- **Literals become the numbers for which they stand**, where there is room for them. -/
theorem Source.literalNumber_iff {field : Option ModelField} {literal : Literal} {n : Int}
    (hin : Text.inSigned64 n = true) :
    literalNumber (field.map ModelField.meaning) literal = .ok n ↔ literal.Denotes field n := by
  cases field with
  | some field => exact (ModelField.ordinal_meaning_iff hin).trans Literal.denotes_some_iff.symm
  | none =>
    cases literal with
    | integer m =>
      show Except.ok m = .ok n ↔ n = m
      rw [Except.ok.injEq, eq_comm]
    | text s =>
      show literalNumber none (.text s) = .ok n ↔ Text.Spells (Text.trim s.toList) n
      rw [← and_iff_left (a := Text.Spells _ n) hin, ← Text.signed64?_eq_some_iff, literalNumber]
      cases Text.signed64? (Text.trim s.toList) <;> simp

/-! ### Options -/

/-- **The options of a choice become the numbers for which they stand**, and are refused if there
is no such number or no room for it. -/
theorem optionOrdinal_eq_ok_iff {field : ModelField} {option : String} {ordinal : UInt8} :
    optionOrdinal (some field.meaning) option = .ok ordinal ↔
      field.Denotes option ordinal.toNat := by
  have hin : Text.inSigned64 ordinal.toNat = true := by
    have hlt := ordinal.toNat_lt
    simp only [Text.inSigned64, Bool.and_eq_true, decide_eq_true_eq]
    omega
  rw [← ModelField.ordinal_meaning_iff hin]
  unfold optionOrdinal
  dsimp only
  cases field.meaning.ordinal option with
  | error refusal => simp
  | ok n =>
    have hlt := ordinal.toNat_lt
    dsimp only
    constructor
    · intro h
      split at h
      · next hroom =>
        obtain rfl := Except.ok.inj h
        rw [UInt8.toNat_ofNat', Nat.mod_eq_of_lt (by omega), Int.toNat_of_nonneg hroom.1]
      · exact absurd h (by simp)
    · intro h
      obtain rfl := Except.ok.inj h
      rw [if_pos (by omega), Int.toNat_natCast, UInt8.ofNat_toNat]

end Timepiece
