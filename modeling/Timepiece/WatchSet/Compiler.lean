import Timepiece.Text.Base64
import Timepiece.WatchSet.Bundle
import Timepiece.WatchSet.Resolution

/-!
# Compiling watch sets

A document is read, its names are resolved, and the program is written out.  The
number of the program is either given or taken from a counter, which is asked
once everything is known but whether the sections of the program fit their
lengths.

## Main definitions

* `Document.resolve` — a document as screens, properties, functions and
  resources without names.
* `Assembly.bundle` — the compiled watch set with a given number.
* `Compiler` — a counter of numbers and a catalog of extensions.
* `Compiler.compile` — one compilation, and the compiler after it.
-/

namespace Timepiece

/-! ### Resources -/

/-- How many resources a document may have. -/
def maxResources : Nat := 256

/-- The bytes of an attachment.  Blanks in its text do not count. -/
def Resource.bytes (resource : Resource) : Except Refusal Bytes :=
  match Base64.decode? (Text.dropBlanks resource.data.toList) with
  | some bytes => .ok bytes
  | none => .error (.brokenResource resource.id)

/-- The bytes of attachments.  No two may have one name; `seen` are the names of
those before. -/
def Resource.decodeAll (seen : List String) : List Resource → Except Refusal (List Bytes)
  | [] => .ok []
  | resource :: rest => do
    if seen.contains resource.id then .error (.repeatedResource resource.id)
    let bytes ← resource.bytes
    let others ← decodeAll (resource.id :: seen) rest
    pure (bytes :: others)

/-- The bytes of the attachments of a document, if it has a list of them. -/
def Resource.decode : Option (List Resource) → Except Refusal (Option (List Bytes))
  | none => .ok none
  | some resources => do
    if maxResources < resources.length then .error .tooManyResources
    let entries ← decodeAll [] resources
    pure (some entries)

/-! ### Screens -/

/-- How many screens a document may have. -/
def maxScreens : Nat := 255

/-- Refuses names that stand twice; `seen` are those before. -/
def checkScreenNames (seen : List String) : List String → Except Refusal Unit
  | [] => .ok ()
  | id :: rest =>
    if seen.contains id then .error (.repeatedScreen id) else checkScreenNames (id :: seen) rest

/-! ### Assemblies -/

/-- A document without names.  Only the number of the program is missing. -/
structure Assembly where
  name : String
  screens : List Program.Screen
  properties : List Property
  functions : List Function
  resources : Option (List Bytes)

namespace Assembly

/-- A property as the program lists it. -/
def entry (property : Property) : Program.PropertyEntry := ⟨property.kind, property.range⟩

/-- The program with a given number. -/
def program (assembly : Assembly) (id : UInt32) : Program :=
  ⟨id, assembly.screens, assembly.properties.map entry, assembly.resources⟩

/-- Refuses a section that is too long. -/
def checkLength (what : Measured) (bytes : Bytes) : Except Refusal Unit :=
  if bytes.length ≤ maxLength then .ok () else .error (.tooLarge what bytes.length)

/-- Refuses sections that are too long, in the order in which they are written. -/
def checkSections (program : Program) : Except Refusal Unit := do
  checkLength .screens (Program.screensBytes program.screens)
  checkLength .properties (Program.propertiesBytes program.properties)
  match program.resources with
  | none => pure ()
  | some resources => checkLength .resources (Program.resourcesBytes resources)

/-- The compiled watch set with a given number. -/
def bundle (assembly : Assembly) (id : UInt32) : Except Refusal Bundle := do
  let program := assembly.program id
  checkSections program
  pure ⟨id, assembly.name, program.bytes, assembly.properties, assembly.functions⟩

end Assembly

/-- Refuses entries whose places do not fit the offsets of their table. -/
def checkPlaces (what : Tabled) (width : Nat) (entries : List Bytes) : Except Refusal Unit :=
  go (Program.tableHead width entries.length) entries
where
  /-- Checks the places from a given one on. -/
  go (start : Nat) : List Bytes → Except Refusal Unit
    | [] => .ok ()
    | entry :: rest =>
      if start < Nat.pow 256 width then go (start + entry.length) rest else .error (.tooMuchData what)

/-! ### Documents -/

/-- What a document must have to be one of this kind. -/
def Document.check (document : Document) : Except Refusal Unit := do
  if document.kind ≠ "watchset" then .error .notAWatchSet
  if ¬ (1 ≤ document.version ∧ document.version ≤ 2) then .error .unknownVersion

/-- A document without names.  Screens are numbered beforehand, so that an action
may show a later one. -/
def Document.resolve (catalog : Option (List String)) (document : Document) :
    Except Refusal Assembly := do
  document.check
  let resources ← Resource.decode document.resources
  if maxScreens < document.screens.length then .error .tooManyScreens
  let names := document.screens.map Screen.id
  checkScreenNames [] names
  let around : Surroundings :=
    ⟨names, (document.resources.getD []).map Resource.id, catalog⟩
  let (screens, ledger) ← (Screen.resolveAll around document.screens).run ⟨[], [], .empty⟩
  checkPlaces .screens 2 (screens.map Program.Screen.bytes)
  match resources with
  | none => pure ()
  | some entries => checkPlaces .resources 3 entries
  pure ⟨document.name, screens, ledger.properties, ledger.functions, resources⟩

/-! ### Compilers -/

/-- A compiler: the number of the next program that does not bring its own, and
the extensions whose properties may be used, if there is a list of them. -/
structure Compiler where
  next : UInt32
  catalog : Option (List String)

namespace Compiler

/-- A compiler that starts counting at one and allows every extension. -/
def initial : Compiler := ⟨1, none⟩

/-- The number of a program, and the compiler after it was taken.  After the
largest number the count starts again at zero. -/
def takeId (compiler : Compiler) : Option UInt32 → UInt32 × Compiler
  | some id => (id, compiler)
  | none => (compiler.next, { compiler with next := compiler.next + 1 })

/-- Everything that is done before the program gets its number. -/
def assemble (compiler : Compiler) (source : String) : Except Refusal Assembly :=
  match Document.ofText source with
  | .ok document => document.resolve compiler.catalog
  | .error fault => .error (.unreadable fault)

/-- Compiles a document, and returns the compiler for the next one.  A number
that was taken from the counter is used up even if a section turns out to be too
long. -/
def compile (compiler : Compiler) (source : String) (id : Option UInt32) :
    Except Refusal Bundle × Compiler :=
  match compiler.assemble source with
  | .error refusal => (.error refusal, compiler)
  | .ok assembly =>
    let (id, compiler) := compiler.takeId id
    (assembly.bundle id, compiler)

end Compiler

end Timepiece
