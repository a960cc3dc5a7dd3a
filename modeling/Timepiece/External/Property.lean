import Timepiece.Bytes
import Timepiece.Json.Choice

/-!
# Properties and functions of extensions

A watch set may show values that an extension on the host owns, and may call
functions of extensions.  The watch knows both only by their places in two
tables.  A property that is shown in several places is listed once; its range
then has to serve all of them.

## Main definitions

* `ValueKind` — what kind of value a property has.
* `Range` — one byte that says how much room a value needs.
* `Property`, `Function` — a property or function of an extension.
* `Range.merge`, `Property.absorb` — one entry that serves two references.

## Main results

* `Range.sizeClass_number`, `Range.precision_number` — what goes into a range
  comes out of it.
* `Range.sizeClass_merge`, `Range.precision_merge`, `Range.raw_merge` — merging
  takes the maximum of each part.
-/

namespace Timepiece

/-! ### Kinds -/

/-- The kinds of values that the watch can show. -/
inductive ValueKind where
  | number
  | text
  | ordinal
  deriving DecidableEq, Repr, Inhabited

namespace ValueKind

/-- The byte that stands for a kind in a program. -/
def key : ValueKind → UInt8
  | number => 1
  | text => 2
  | ordinal => 3

/-- The name of a kind. -/
def name : ValueKind → String
  | number => "NUMBER"
  | text => "STRING"
  | ordinal => "ENUM"

/-- The kinds by their names. -/
def named : List (String × ValueKind) :=
  [number, text, ordinal].map fun kind => (kind.name, kind)

/-- A kind, straight from the text. -/
def ofOutline : Outline → Reading ValueKind := Choice.ofOutline named

theorem key_injective {a b : ValueKind} (h : a.key = b.key) : a = b := by
  revert h
  cases a <;> cases b <;> decide

end ValueKind

/-! ### Ranges -/

/-- How much room a value needs.  For a number the upper three bits count the
bytes and the lower five the decimals; for a text the byte is the greatest
length. -/
structure Range where
  raw : UInt8
  deriving DecidableEq, Repr, Inhabited

namespace Range

/-- The range of a number.  Only three bits of the size class and five of the
precision are kept. -/
def number (sizeClass precision : Nat) : Range :=
  ⟨UInt8.ofNat (sizeClass % 8 * 32 + precision % 32)⟩

/-- The number of bytes that a number takes. -/
def sizeClass (range : Range) : Nat := range.raw.toNat / 32

/-- The number of decimals that a number has. -/
def precision (range : Range) : Nat := range.raw.toNat % 32

/-- The range that serves two references of the same kind: for numbers the
larger size class and the larger precision, for the others the larger byte. -/
def merge (kind : ValueKind) (a b : Range) : Range :=
  match kind with
  | .number => number (max a.sizeClass b.sizeClass) (max a.precision b.precision)
  | .text | .ordinal => ⟨UInt8.ofNat (max a.raw.toNat b.raw.toNat)⟩

theorem sizeClass_lt (range : Range) : range.sizeClass < 8 := by
  have := range.raw.toNat_lt
  unfold sizeClass
  omega

theorem precision_lt (range : Range) : range.precision < 32 := Nat.mod_lt _ (by decide)

/-- A range is its two parts. -/
theorem raw_eq (range : Range) : range.raw.toNat = range.sizeClass * 32 + range.precision := by
  unfold sizeClass precision
  omega

theorem raw_number (s p : Nat) : (number s p).raw.toNat = s % 8 * 32 + p % 32 := by
  have : s % 8 * 32 + p % 32 < 256 := by omega
  simp [number, UInt8.toNat_ofNat', Nat.mod_eq_of_lt this]

@[simp] theorem sizeClass_number (s p : Nat) : (number s p).sizeClass = s % 8 := by
  rw [sizeClass, raw_number]
  omega

@[simp] theorem precision_number (s p : Nat) : (number s p).precision = p % 32 := by
  rw [precision, raw_number]
  omega

@[simp] theorem sizeClass_merge (a b : Range) :
    (merge .number a b).sizeClass = max a.sizeClass b.sizeClass := by
  have ha := a.sizeClass_lt
  have hb := b.sizeClass_lt
  rw [merge, sizeClass_number]
  omega

@[simp] theorem precision_merge (a b : Range) :
    (merge .number a b).precision = max a.precision b.precision := by
  have ha := a.precision_lt
  have hb := b.precision_lt
  rw [merge, precision_number]
  omega

theorem raw_merge {kind : ValueKind} (h : kind ≠ .number) (a b : Range) :
    (merge kind a b).raw.toNat = max a.raw.toNat b.raw.toNat := by
  have ha := a.raw.toNat_lt
  have hb := b.raw.toNat_lt
  have hm : max a.raw.toNat b.raw.toNat < 256 := by omega
  cases kind with
  | number => exact absurd rfl h
  | text => simp [merge, UInt8.toNat_ofNat', Nat.mod_eq_of_lt hm]
  | ordinal => simp [merge, UInt8.toNat_ofNat', Nat.mod_eq_of_lt hm]

end Range

/-! ### Properties -/

/-- A property of an extension.  The first two fields say which; kind and range
belong to the reference. -/
structure Property where
  extension : String
  property : String
  kind : ValueKind
  range : Range
  deriving DecidableEq, Repr

/-- Two references to one property disagree on its kind. -/
structure KindConflict where
  extension : String
  property : String
  existing : ValueKind
  requested : ValueKind
  deriving DecidableEq, Repr

/-- The wording of a conflict. -/
def KindConflict.message (c : KindConflict) : String :=
  s!"property {c.property} of {c.extension} is used as {c.existing.name} and as {c.requested.name}"

namespace Property

/-- Whether two references are to the same property. -/
def same (a b : Property) : Bool := a.extension = b.extension && a.property = b.property

/-- The entry that serves a further reference too. -/
def absorb (entry other : Property) : Except KindConflict Property :=
  if entry.kind = other.kind then
    .ok { entry with range := Range.merge entry.kind entry.range other.range }
  else .error ⟨entry.extension, entry.property, entry.kind, other.kind⟩

/-- A property, straight from the text. -/
def ofOutline : Outline → Reading Property :=
  Fields.fromOutline <|
    Fields.done (fun extension property kind raw => ⟨extension, property, kind, ⟨UInt8.ofNat raw⟩⟩)
      |>.required "extension_id" Outline.asText
      |>.required "property_id" Outline.asText
      |>.required "kind" ValueKind.ofOutline
      |>.required "range" (Outline.asBelow 256)

/-- A property as JSON. -/
def toJson (p : Property) : Json :=
  .object [("extension_id", .text p.extension), ("property_id", .text p.property),
    ("kind", .text p.kind.name), ("range", .ofNat p.range.raw.toNat)]

end Property

/-! ### Functions -/

/-- A function of an extension with the parameter it is called with. -/
structure Function where
  extension : String
  function : String
  parameter : String
  deriving DecidableEq, Repr

namespace Function

/-- A function, straight from the text.  Without a parameter it has the empty
one. -/
def ofOutline : Outline → Reading Function :=
  Fields.fromOutline <|
    Fields.done Function.mk
      |>.required "extension_id" Outline.asText
      |>.required "function_id" Outline.asText
      |>.default "parameter" Outline.asText ""

/-- A function as JSON. -/
def toJson (f : Function) : Json :=
  .object [("extension_id", .text f.extension), ("function_id", .text f.function),
    ("parameter", .text f.parameter)]

end Function

end Timepiece
