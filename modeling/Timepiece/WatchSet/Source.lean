import Timepiece.Json.Choice

/-!
# Sources of values

A source says where a value on the screen comes from: it is written in the
document, or it is kept by the watch, measured, owned by an extension, or held in
a field of the screen's model.  A source may be indexed by another one, and the
value may go through a chain of converters.

## Main definitions

* `Literal` — a value written in the document.
* `Origin` — where a value comes from.
* `Source` — an origin with its index and its converters.
* `Source.ofJson` — the source that a JSON value describes.
-/

namespace Timepiece

/-- A value written in the document. -/
inductive Literal where
  | integer (n : Int)
  | text (s : String)
  deriving DecidableEq, Repr

/-- The text of a literal. -/
def Literal.symbol : Literal → String
  | integer n => String.ofList (Json.integerText n)
  | text s => s

/-- Where a value comes from. -/
inductive Origin where
  /-- It is written in the document. -/
  | fixed (value : Literal)
  /-- The watch keeps it. -/
  | internal (property : String)
  /-- The watch measures it. -/
  | sensor (property : String)
  /-- An extension owns it. -/
  | extension (extension property : String)
  /-- A field of the screen's model holds it. -/
  | model (field : String)
  deriving DecidableEq, Repr

/-- An origin with its index and its converters. -/
inductive Source where
  | plain (origin : Origin) (converters : Option (List String))
  | indexed (origin : Origin) (index : Source) (converters : Option (List String))
  deriving DecidableEq, Repr

namespace Source

/-- The origin of a source. -/
def origin : Source → Origin
  | plain origin _ => origin
  | indexed origin _ _ => origin

/-- A source from its parts. -/
def ofParts (origin : Origin) (index : Option Source) (converters : Option (List String)) :
    Source :=
  match index with
  | none => plain origin converters
  | some index => indexed origin index converters

/-- A whole number written in the document. -/
def constant (n : Int) : Source := plain (.fixed (.integer n)) none

/-! ### Reading -/

/-- A literal. -/
def literalOfJson : Json → Reading Literal
  | .number (.integer n) =>
    if Text.inSigned64 n then .ok (.integer n) else .error .mismatch
  | .text s => .ok (.text s)
  | _ => .error .mismatch

/-- The name of a converter, or a chain of names. -/
def convertersOfJson : Json → Reading (List String)
  | .text name => .ok [name]
  | value => Json.asList Json.asText value

/-- The forms of an origin. -/
def originForms : List (String × Fields Json Origin) :=
  [("static", Fields.done Origin.fixed |>.required "value" literalOfJson),
   ("internal", Fields.done Origin.internal |>.required "property" Json.asText),
   ("sensor", Fields.done Origin.sensor |>.required "property" Json.asText),
   ("extension", Fields.done Origin.extension
      |>.required "extensionId" Json.asText
      |>.required "property" Json.asText),
   ("model", Fields.done Origin.model |>.required "property" Json.asText)]

/-- A source in the middle of being read. -/
structure Draft where
  /-- The index, if its key was met. -/
  index : Option (Option Source)
  /-- The converters, if their key was met. -/
  converters : Option (Option (List String))
  /-- The other members, the last one first; they describe the origin. -/
  others : List (String × Json)

namespace Draft

/-- Nothing read yet. -/
def start : Draft := ⟨none, none, []⟩

/-- Takes a member in. -/
def take (readIndex : Json → Reading Source) (draft : Draft) (key : String) (value : Json) :
    Reading Draft :=
  if key = "index" then
    match draft.index with
    | some _ => .error (.duplicateField key)
    | none => (Json.asOption readIndex value).map fun index => { draft with index := some index }
  else if key = "converter" then
    match draft.converters with
    | some _ => .error (.duplicateField key)
    | none => (Json.asOption convertersOfJson value).map fun converters =>
      { draft with converters := some converters }
  else .ok { draft with others := (key, value) :: draft.others }

/-- The source, once all members have been taken in. -/
def finish (draft : Draft) : Reading Source :=
  (Choice.taggedMembers .nameOrPosition originForms draft.others.reverse).map fun origin =>
    ofParts origin draft.index.join draft.converters.join

/-- Takes the members of an object in, one by one. -/
def takeAll (readIndex : Json → Reading Source) (draft : Draft) :
    List (String × Json) → Reading Source
  | [] => draft.finish
  | (key, value) :: rest =>
    match draft.take readIndex key value with
    | .ok draft => takeAll readIndex draft rest
    | .error fault => .error fault

end Draft

/-- The source that a value of at most the given depth describes. -/
def readAt : (depth : Nat) → Json → Reading Source
  | depth + 1, .object members => Draft.start.takeAll (readAt depth) members
  | _, _ => .error .mismatch

/-- The source that a JSON value describes. -/
def ofJson (value : Json) : Reading Source := readAt value.depth value

end Source

end Timepiece
