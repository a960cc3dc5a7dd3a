import Timepiece.Json.Outline
import Timepiece.Text.Integer

/-!
# Reading values

A reader turns a JSON value into something the program works with, or says why
it cannot.  A value may be read in two ways: straight from its text, where what
is broken and what has the wrong shape are found in the order in which they
stand, or after it has been taken in as a whole.

## Main definitions

* `Json.asText`, `Json.asBool`, `Json.asSigned64`, … — readers of whole values.
* `Json.asList`, `Json.asMap`, `Json.asOption` — readers of what holds others.
* `Outline.leaf`, `Outline.asList`, … — the same, straight from the text.
-/

namespace Timepiece

namespace Json

/-! ### Whole values -/

/-- A text. -/
def asText : Json → Reading String
  | .text s => .ok s
  | _ => .error .mismatch

/-- A truth value. -/
def asBool : Json → Reading Bool
  | .bool b => .ok b
  | _ => .error .mismatch

/-- A whole number that satisfies a bound.  Floats are none, even those without
a fraction. -/
def asInteger (fits : Int → Bool) : Json → Reading Int
  | .number (.integer n) => if fits n then .ok n else .error .mismatch
  | _ => .error .mismatch

/-- A signed 64-bit number. -/
def asSigned64 : Json → Reading Int := asInteger Text.inSigned64

/-- A whole number that is not negative and below a bound. -/
def asBelow (bound : Nat) (value : Json) : Reading Nat :=
  (asInteger (fun n => 0 ≤ n && n < bound) value).map Int.toNat

/-- A value that may be `null`. -/
def asOption {α : Type} (read : Json → Reading α) : Json → Reading (Option α)
  | .null => .ok none
  | value => (read value).map some

/-- Reads the items of an array one by one, after those already read, which are
kept in reverse. -/
def readItems {α : Type} (read : Json → Reading α) (done : List α) :
    List Json → Reading (List α)
  | [] => .ok done.reverse
  | item :: rest =>
    match read item with
    | .ok v => readItems read (v :: done) rest
    | .error fault => .error fault

/-- An array. -/
def asList {α : Type} (read : Json → Reading α) : Json → Reading (List α)
  | .array items => readItems read [] items
  | _ => .error .mismatch

/-- Reads the members of an object one by one, after those already read.  A
repeated key keeps its place and takes the last value. -/
def readMembers {α : Type} (read : Json → Reading α) (done : Members α) :
    List (String × Json) → Reading (Members α)
  | [] => .ok done
  | (key, value) :: rest =>
    match read value with
    | .ok v => readMembers read (done.put key v) rest
    | .error fault => .error fault

/-- An object with any keys. -/
def asMap {α : Type} (read : Json → Reading α) : Json → Reading (Members α)
  | .object members => readMembers read [] members
  | _ => .error .mismatch

end Json

namespace Outline

/-! ### Straight from the text -/

/-- A value that holds no others. -/
def leaf {α : Type} (read : Json → Reading α) : Outline → Reading α
  | .null => read .null
  | .bool b => read (.bool b)
  | .number n => read (.number n)
  | .text s => read (.text s)
  | .array _ _ => .error .mismatch
  | .object _ _ => .error .mismatch
  | .unreadable b => .error (.breach b)

/-- A text. -/
def asText : Outline → Reading String := leaf Json.asText

/-- A truth value. -/
def asBool : Outline → Reading Bool := leaf Json.asBool

/-- A signed 64-bit number. -/
def asSigned64 : Outline → Reading Int := leaf Json.asSigned64

/-- A whole number that is not negative and below a bound. -/
def asBelow (bound : Nat) : Outline → Reading Nat := leaf (Json.asBelow bound)

/-- A value that may be `null`. -/
def asOption {α : Type} (read : Outline → Reading α) : Outline → Reading (Option α)
  | .null => .ok none
  | value => (read value).map some

/-- What is left to say when nothing more is read of a container. -/
def stopped {α : Type} (stop : Option Breach) (value : α) : Reading α :=
  match stop with
  | none => .ok value
  | some b => .error (.breach b)

/-- Reads the items of an array one by one, after those already read, which are
kept in reverse. -/
def readItems {α : Type} (read : Outline → Reading α) (stop : Option Breach) (done : List α) :
    List Outline → Reading (List α)
  | [] => stopped stop done.reverse
  | item :: rest =>
    match read item with
    | .ok v => readItems read stop (v :: done) rest
    | .error fault => .error fault

/-- An array. -/
def asList {α : Type} (read : Outline → Reading α) : Outline → Reading (List α)
  | .array items stop => readItems read stop [] items
  | .unreadable b => .error (.breach b)
  | _ => .error .mismatch

/-- Reads the members of an object one by one, after those already read.  A
repeated key keeps its place and takes the last value. -/
def readMembers {α : Type} (read : Outline → Reading α) (stop : Option Breach)
    (done : Members α) : List (Key × Outline) → Reading (Members α)
  | [] => stopped stop done
  | (.broken b, _) :: _ => .error (.breach b)
  | (.name key, value) :: rest =>
    match read value with
    | .ok v => readMembers read stop (done.put key v) rest
    | .error fault => .error fault

/-- An object with any keys. -/
def asMap {α : Type} (read : Outline → Reading α) : Outline → Reading (Members α)
  | .object members stop => readMembers read stop [] members
  | .unreadable b => .error (.breach b)
  | _ => .error .mismatch

/-- A value taken in as a whole, with repeated keys merged. -/
def merged (value : Outline) : Reading Json := value.value.map Json.merged

/-- An object taken in as a whole, with repeated keys merged. -/
def mergedMembers : Outline → Reading (Members Json)
  | .object members stop => (memberValues stop [] members).map fun members =>
    Members.ofList (Json.mergedMembers members)
  | .unreadable b => .error (.breach b)
  | _ => .error .mismatch

end Outline

/-! ### Whole texts -/

/-- Reads a text that holds one value and nothing else. -/
def readText {α : Type} (read : Outline → Reading α) (text : String) : Reading α :=
  let (outline, whole) := Outline.ofText text.toList
  match read outline with
  | .error fault => .error fault
  | .ok value => if whole then .ok value else .error (.breach .malformed)

end Timepiece
