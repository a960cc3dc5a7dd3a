import Timepiece.Bytes
import Timepiece.Decimal.Layout

/-!
# JSON values

A JSON value as it is held once it has been read.  Objects keep the order in
which their members were written, because that order numbers the fields of a
screen's model and the options of a choice.

## Main definitions

* `Number` — a whole number or a float.
* `Json` — a JSON value.
* `Members` — the members of an object; `Members.put` replaces in place.
* `Json.merged` — the value with repeated keys merged, at every depth.
* `Json.depth` — how deep arrays and objects are nested.
* `Json.render` — the compact text of a value.
-/

namespace Timepiece

/-- A number as JSON writes it: whole numbers that fit 64 bits stay whole, all
others are floats. -/
inductive Number where
  | integer (n : Int)
  | float (v : Float)

/-- A JSON value. -/
inductive Json where
  | null
  | bool (b : Bool)
  | number (n : Number)
  | text (s : String)
  | array (items : List Json)
  | object (members : List (String × Json))

/-! ### Members -/

/-- Named values in the order in which they were first written. -/
abbrev Members (α : Type) := List (String × α)

namespace Members

variable {α β : Type}

/-- The value of a name. -/
def find? (members : Members α) (name : String) : Option α :=
  List.lookup name members

/-- Gives a name a value: a new name is added at the end, a known one keeps its
place. -/
def put (members : Members α) (name : String) (value : α) : Members α :=
  match members with
  | [] => [(name, value)]
  | (key, old) :: rest =>
    if key = name then (key, value) :: rest else (key, old) :: put rest name value

/-- The names, in order. -/
def names (members : Members α) : List String := members.map Prod.fst

/-- The members given one after the other: a repeated name has its first place
and its last value. -/
def ofList (pairs : List (String × α)) : Members α :=
  pairs.foldl (fun members pair => members.put pair.1 pair.2) []

@[simp] theorem find?_nil (name : String) : find? ([] : Members α) name = none := rfl

/-- A value that was put is found. -/
theorem find?_put_self (members : Members α) (name : String) (value : α) :
    (members.put name value).find? name = some value := by
  induction members with
  | nil => simp [put, find?]
  | cons pair rest ih =>
    obtain ⟨key, old⟩ := pair
    by_cases h : key = name
    · simp [put, find?, h]
    · have h' : (name == key) = false := by simpa using fun e => h e.symm
      simpa [put, find?, h, h', List.lookup_cons] using ih

/-- The other names keep their values. -/
theorem find?_put_of_ne (members : Members α) {name other : String} (value : α)
    (h : other ≠ name) : (members.put name value).find? other = members.find? other := by
  induction members with
  | nil =>
    have h' : (other == name) = false := by simpa using h
    simp [put, find?, List.lookup_cons, h']
  | cons pair rest ih =>
    obtain ⟨key, old⟩ := pair
    by_cases hk : key = name
    · subst hk
      have h' : (other == key) = false := by simpa using h
      simp [put, find?, List.lookup_cons, h']
    · by_cases ho : other = key
      · subst ho
        simp [put, find?, hk]
      · have h' : (other == key) = false := by simpa using ho
        simpa [put, find?, hk, List.lookup_cons, h'] using ih

end Members

namespace Json

/-! ### Merging repeated keys -/

mutual

/-- The value with repeated keys merged, at every depth: the first place and the
last value stay. -/
def merged : Json → Json
  | .array items => .array (mergedItems items)
  | .object members => .object (Members.ofList (mergedMembers members))
  | value => value

/-- The items of an array, each merged. -/
def mergedItems : List Json → List Json
  | [] => []
  | item :: rest => item.merged :: mergedItems rest

/-- The members of an object, each value merged. -/
def mergedMembers : List (String × Json) → List (String × Json)
  | [] => []
  | (key, value) :: rest => (key, value.merged) :: mergedMembers rest

end

/-! ### Depth -/

mutual

/-- How deep arrays and objects are nested in a value. -/
def depth : Json → Nat
  | .array items => depthOfItems items + 1
  | .object members => depthOfMembers members + 1
  | _ => 0

/-- The greatest depth among the items of an array. -/
def depthOfItems : List Json → Nat
  | [] => 0
  | item :: rest => max item.depth (depthOfItems rest)

/-- The greatest depth among the members of an object. -/
def depthOfMembers : List (String × Json) → Nat
  | [] => 0
  | (_, value) :: rest => max value.depth (depthOfMembers rest)

end

/-! ### Text -/

/-- A character inside a quoted text: quotes, backslashes and control characters
are escaped, all others stand for themselves. -/
def escape (c : Char) : List Char :=
  if c = '"' then ['\\', '"']
  else if c = '\\' then ['\\', '\\']
  else if c = '\x08' then ['\\', 'b']
  else if c = '\x0c' then ['\\', 'f']
  else if c = '\n' then ['\\', 'n']
  else if c = '\r' then ['\\', 'r']
  else if c = '\t' then ['\\', 't']
  else if c.toNat < 32 then
    ['\\', 'u', '0', '0', hexDigit (c.toNat / 16), hexDigit (c.toNat % 16)]
  else [c]

/-- A text in quotes. -/
def quote (s : String) : List Char := '"' :: s.toList.flatMap escape ++ ['"']

/-- A whole number in base ten. -/
def integerText (n : Int) : List Char :=
  if n < 0 then '-' :: Nat.toDigits 10 n.natAbs else Nat.toDigits 10 n.natAbs

/-- A number. -/
def numberText : Number → List Char
  | .integer n => integerText n
  | .float v => FloatStyle.json.writeBits v.toBits

/-- Pieces with a comma between each two. -/
def commaSeparated (pieces : List (List Char)) : List Char :=
  List.intercalate [','] pieces

mutual

/-- The compact text of a value, without blanks. -/
def renderChars : Json → List Char
  | .null => ['n', 'u', 'l', 'l']
  | .bool true => ['t', 'r', 'u', 'e']
  | .bool false => ['f', 'a', 'l', 's', 'e']
  | .number n => numberText n
  | .text s => quote s
  | .array items => '[' :: commaSeparated (renderItems items) ++ [']']
  | .object members => '{' :: commaSeparated (renderMembers members) ++ ['}']

/-- The texts of the items of an array. -/
def renderItems : List Json → List (List Char)
  | [] => []
  | item :: rest => item.renderChars :: renderItems rest

/-- The texts of the members of an object. -/
def renderMembers : List (String × Json) → List (List Char)
  | [] => []
  | (key, value) :: rest => (quote key ++ ':' :: value.renderChars) :: renderMembers rest

end

/-- The compact text of a value. -/
def render (value : Json) : String := String.ofList value.renderChars

/-- A whole number as a value. -/
def ofNat (n : Nat) : Json := .number (.integer n)

/-- The member of an object with a name; nothing if the value is no object. -/
def member? : Json → String → Option Json
  | .object members, name => Members.find? members name
  | _, _ => none

end Json

end Timepiece
