import Timepiece.Json.Value
import Timepiece.Text.Integer

/-!
# Why a JSON text was not accepted

A text can fail in three ways: it is no JSON, it ends too early, or it is JSON
of the wrong shape.  Faults of shape carry what is needed to name them, as far as
they have a name of their own.

## Main definitions

* `Breach` — the ways in which a text is no JSON.
* `Fault` — the reason why a text or a value was refused.
* `Fault.category`, `Fault.cause?` — the two things that are reported of it.
* `Fault.withoutPlace` — a reason without the place that it names at its end.
* `Fault.handOn` — a fault as it is handed on from a value to what holds it.
-/

namespace Timepiece

/-- The ways in which a text is no JSON. -/
inductive Breach where
  /-- Something stands where it may not. -/
  | malformed
  /-- The text ends where more is needed. -/
  | ended
  /-- The text ends within a literal or a number. -/
  | cutShort
  deriving DecidableEq, Repr

/-- The reason why a text or a value was refused. -/
inductive Fault where
  /-- The text is no JSON. -/
  | breach (b : Breach)
  /-- A value of another kind is needed, or a number is out of range. -/
  | mismatch
  /-- An object lacks a field. -/
  | missingField (name : String)
  /-- An object has a field twice. -/
  | duplicateField (name : String)
  /-- A name is none of those allowed in its place. -/
  | unknownVariant (found : String) (allowed : List String)
  /-- The document's own rules refuse the value, for the reason given. -/
  | refused (reason : String)
  deriving DecidableEq, Repr

/-- The class of a fault, as it is reported. -/
inductive FaultCategory where
  | syntactic
  | eof
  | data
  deriving DecidableEq, Repr

namespace Fault

/-- The class that a fault belongs to. -/
def category : Fault → FaultCategory
  | .breach .malformed => .syntactic
  | .breach .ended => .eof
  | .breach .cutShort => .eof
  | _ => .data

/-! ### Wordings -/

/-- A number of a machine word at the end of a text, and the text before it.  Both
texts are given back to front. -/
def takeNumber? (back : List Char) : Option (Nat × List Char) :=
  let digits := back.takeWhile fun c => (Text.digitValue? c).isSome
  (Text.naturalBelow? UInt64.size digits.reverse).map fun n => (n, back.drop digits.length)

/-- A text without a word at its end, if there is one.  The text is given back to
front. -/
def dropWord? (word : String) (back : List Char) : Option (List Char) :=
  let letters := word.toList.reverse
  if letters.isPrefixOf back then some (back.drop letters.length) else none

/-- The line of the place that a text names at its end, and the text before it.
Both texts are given back to front. -/
def takePlace? (back : List Char) : Option (Nat × List Char) := do
  let (_, back) ← takeNumber? back
  let back ← dropWord? " column " back
  let (line, back) ← takeNumber? back
  let back ← dropWord? " at line " back
  some (line, back)

/-- A reason as it is reported.  Places are not reported: a reason that names one
at its end is cut there. -/
def withoutPlace (reason : String) : String :=
  match takePlace? reason.toList.reverse with
  | some (_, back) => String.ofList back.reverse
  | none => reason

/-- A reason as it is handed on by what holds the value.  The place that it names
at its end is taken for its own; a place in line zero is none and is cut off. -/
def passedOn (reason : String) : String :=
  match takePlace? reason.toList.reverse with
  | some (0, back) => String.ofList back.reverse
  | _ => reason

/-- A fault as it is handed on by what holds the value. -/
def handOn : Fault → Fault
  | .refused reason => .refused (passedOn reason)
  | fault => fault

/-- The names allowed in a place, as a message lists them. -/
def allowedNames : List String → String
  | [] => "there are no variants"
  | [a] => s!"expected `{a}`"
  | [a, b] => s!"expected `{a}` or `{b}`"
  | names => "expected one of " ++ ", ".intercalate (names.map fun name => s!"`{name}`")

/-- The wording of a fault that has one of its own. -/
def cause? : Fault → Option String
  | .breach _ => none
  | .mismatch => none
  | .missingField name => some s!"missing field `{name}`"
  | .duplicateField name => some s!"duplicate field `{name}`"
  | .unknownVariant found allowed =>
    some (s!"unknown variant `{found}`, " ++ allowedNames allowed)
  | .refused reason => some (withoutPlace reason)

end Fault

/-- The result of reading something from JSON. -/
abbrev Reading (α : Type) := Except Fault α

/-- A result as it is handed on by what holds the value. -/
def Reading.handOn {α : Type} : Reading α → Reading α
  | .ok value => .ok value
  | .error fault => .error fault.handOn

end Timepiece
