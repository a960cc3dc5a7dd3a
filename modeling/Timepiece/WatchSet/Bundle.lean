import Timepiece.External.Property

/-!
# Compiled watch sets

What a compilation yields: the program that is sent to the watch, and the two
tables that say which property and which function of which extension the numbers
in the program stand for.  A bundle is stored as JSON.

## Main definitions

* `Bundle` — a compiled watch set.
* `Bundle.toText`, `Bundle.ofText` — its stored form.
-/

namespace Timepiece

/-- A compiled watch set. -/
structure Bundle where
  /-- The number of the program, which is also in its header. -/
  id : UInt32
  /-- The name for people. -/
  name : String
  /-- The program. -/
  binary : Bytes
  /-- The properties that the program refers to, by their place. -/
  properties : List Property
  /-- The functions that the program calls, by their place. -/
  functions : List Function
  deriving DecidableEq, Repr

namespace Bundle

/-- The property at a place of the table. -/
def property? (bundle : Bundle) (index : Nat) : Option Property := bundle.properties[index]?

/-- The function at a place of the table. -/
def function? (bundle : Bundle) (index : Nat) : Option Function := bundle.functions[index]?

/-- A bundle as JSON. -/
def toJson (bundle : Bundle) : Json :=
  .object [("id", .ofNat bundle.id.toNat), ("name", .text bundle.name),
    ("binary", .array (bundle.binary.map fun byte => .ofNat byte.toNat)),
    ("external_properties", .array (bundle.properties.map Property.toJson)),
    ("external_functions", .array (bundle.functions.map Function.toJson))]

/-- The stored form of a bundle. -/
def toText (bundle : Bundle) : String := bundle.toJson.render

/-- A bundle, straight from the text. -/
def ofOutline : Outline → Reading Bundle :=
  Fields.fromOutline <|
    Fields.done (fun id name (binary : List Nat) properties functions =>
        ⟨UInt32.ofNat id, name, binary.map UInt8.ofNat, properties, functions⟩)
      |>.required "id" (Outline.asBelow UInt32.size)
      |>.required "name" Outline.asText
      |>.required "binary" (Outline.asList (Outline.asBelow 256))
      |>.required "external_properties" (Outline.asList Property.ofOutline)
      |>.required "external_functions" (Outline.asList Function.ofOutline)

/-- The bundle of a stored form. -/
def ofText (text : String) : Reading Bundle := readText ofOutline text

end Bundle

end Timepiece
