import Timepiece.Text.Blank
import Timepiece.Text.Integer
import Timepiece.WatchSet.Refusal

/-!
# What names stand for

While a document is compiled, names are looked up in tables of two kinds.  Those
of the document — screens, resources and the extensions that may be used — are
fixed beforehand.  Those of properties and functions grow with every reference.
Each screen has besides the fields of its model and a scratch memory, which is
handed out piece by piece.

## Main definitions

* `Meaning` — how symbolic values of a field become numbers.
* `FieldEntry`, `Fields` — the fields of a model.
* `Scratch` — the scratch memory of a screen.
* `Surroundings` — what is fixed for a document.
* `Compiling` — a computation that extends the tables or refuses the document.
-/

namespace Timepiece

/-! ### Symbolic values -/

/-- How a symbolic value becomes a number. -/
inductive Meaning where
  /-- It is written as a number. -/
  | integer
  /-- It is one of several symbols. -/
  | enumeration (ordinals : Members Int)

/-- The number of a symbolic value. -/
def Meaning.ordinal (symbol : String) : Meaning → Except Refusal Int
  | integer =>
    match Text.signed64? (Text.trim symbol.toList) with
    | some n => .ok n
    | none => .error (.notAnInteger symbol)
  | enumeration ordinals =>
    match ordinals.find? symbol with
    | some n => .ok n
    | none => .error (.unknownSymbol symbol)

/-- The ordinals of a list of symbols: their places, the last one for a symbol
that is repeated. -/
def Meaning.ofSymbols (symbols : List String) : Meaning :=
  .enumeration (Members.ofList (symbols.zipIdx.map fun (symbol, i) => (symbol, (i : Int))))

/-- A field of a model. -/
structure FieldEntry where
  id : UInt8
  meaning : Meaning

/-! ### Scratch memory -/

/-- The scratch memory of a screen: how much of it has been handed out. -/
structure Scratch where
  size : Nat
  deriving DecidableEq, Repr

namespace Scratch

/-- Nothing has been handed out. -/
def empty : Scratch := ⟨0⟩

/-- Hands out the next bytes: their offset, and what is handed out then. -/
def allocate (scratch : Scratch) (length : Nat) : Except Refusal (UInt16 × Scratch) :=
  if maxLength < scratch.size + length then .error .scratchExhausted
  else .ok (UInt16.ofNat scratch.size, ⟨scratch.size + length⟩)

end Scratch

/-! ### Tables -/

/-- What is fixed for a document. -/
structure Surroundings where
  /-- The screens, numbered by their places. -/
  screens : List String
  /-- The resources, numbered by their places. -/
  resources : List String
  /-- The extensions whose properties may be used; without a list all may. -/
  catalog : Option (List String)

namespace Surroundings

/-- The number of a screen. -/
def screen (around : Surroundings) (id : String) : Except Refusal UInt16 :=
  match around.screens.idxOf? id with
  | some n => .ok (UInt16.ofNat n)
  | none => .error (.unknownScreen id)

/-- The number of a resource. -/
def resource (around : Surroundings) (id : String) : Except Refusal UInt8 :=
  match around.resources.idxOf? id with
  | some n => .ok (UInt8.ofNat n)
  | none => .error (.unknownResource id)

/-- Whether the properties of an extension may be used. -/
def allows (around : Surroundings) (extension : String) : Bool :=
  match around.catalog with
  | some extensions => extensions.contains extension
  | none => true

end Surroundings

/-- What grows while a document is compiled: the tables of the document and the
scratch memory of the screen. -/
structure Ledger where
  properties : List Property
  functions : List Function
  scratch : Scratch

/-- A computation that extends the tables or refuses the document. -/
abbrev Compiling (α : Type) := StateT Ledger (Except Refusal) α

namespace Compiling

/-- Refuses the document. -/
def refuse {α : Type} (refusal : Refusal) : Compiling α := fun _ => .error refusal

/-- A computation that needs no tables. -/
def lift {α : Type} (result : Except Refusal α) : Compiling α := fun ledger =>
  match result with
  | .ok value => .ok (value, ledger)
  | .error refusal => .error refusal

/-- Refuses the document unless a condition holds. -/
def ensure (condition : Bool) (refusal : Refusal) : Compiling Unit :=
  if condition then pure () else refuse refusal

/-- Hands out scratch memory and returns its offset. -/
def allocate (length : Nat) : Compiling UInt16 := fun ledger =>
  match ledger.scratch.allocate length with
  | .ok (offset, scratch) => .ok (offset, { ledger with scratch })
  | .error refusal => .error refusal

/-- The entry of a table that an index names, replaced. -/
def absorbAt (table : List Property) (index : Nat) (reference : Property) :
    Except Refusal (List Property) :=
  match table[index]? with
  | none => .ok table
  | some entry =>
    match entry.absorb reference with
    | .ok entry => .ok (table.set index entry)
    | .error conflict => .error (.kindConflict conflict)

/-- The place of a property and the table with the reference taken in. -/
def enterProperty (table : List Property) (reference : Property) :
    Except Refusal (Nat × List Property) :=
  match table.findIdx? (·.same reference) with
  | some index => (absorbAt table index reference).map fun table => (index, table)
  | none => .ok (table.length, table ++ [reference])

/-- Takes a reference to a property into the table and returns its place. -/
def property (around : Surroundings) (reference : Property) : Compiling UInt8 := fun ledger =>
  if around.allows reference.extension then
    match enterProperty ledger.properties reference with
    | .error refusal => .error refusal
    | .ok (index, properties) =>
      if index < maxCount then .ok (UInt8.ofNat index, { ledger with properties })
      else .error .tooManyProperties
  else .error (.unavailableExtension reference.extension)

/-- The place of a function and the table with it. -/
def enterFunction (table : List Function) (function : Function) : Nat × List Function :=
  match table.idxOf? function with
  | some index => (index, table)
  | none => (table.length, table ++ [function])

/-- Takes a function into the table and returns its place. -/
def function (reference : Function) : Compiling UInt16 := fun ledger =>
  let (index, functions) := enterFunction ledger.functions reference
  if index ≤ maxLength then .ok (UInt16.ofNat index, { ledger with functions })
  else .error .tooManyFunctions

end Compiling

end Timepiece
