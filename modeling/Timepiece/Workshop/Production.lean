import Timepiece.Text.Blank
import Timepiece.Text.Integer
import Timepiece.WatchSet.Compiler
import Timepiece.Workshop.Disk
import Timepiece.Workshop.Fault

/-!
# Compiling files

A document is compiled into a program file, and if that is wanted into a file
with its tables as well.  A program without a number of its own gets the next one
of a counter, which is kept in a file in the folder of the program.

All reading comes before all writing, so that an order is carried out by reading
its two files, planning, and making the planned writes one after the other until
one fails.

## Main definitions

* `CompileOrder` — what to compile, and where to.
* `CompileOrder.plan` — the writes to make, and the outcome once they are made.
* `Summary` — what is told of a compiled watch set.
* `Disk.compile` — an order carried out on a disk.
-/

namespace Timepiece

/-! ### Summaries -/

/-- What is told of a compiled watch set. -/
structure Summary where
  id : UInt32
  name : String
  size : Nat
  properties : Nat
  functions : Nat
  deriving DecidableEq, Repr

namespace Summary

/-- The summary of a compiled watch set. -/
def of (bundle : Bundle) : Summary :=
  ⟨bundle.id, bundle.name, bundle.binary.length, bundle.properties.length,
    bundle.functions.length⟩

/-- A summary for people. -/
def text (s : Summary) : String :=
  s!"{s.name} (id {s.id.toNat}): {s.size} bytes, {s.properties} external properties, " ++
    s!"{s.functions} external functions"

/-- The members of a summary as JSON. -/
def members (s : Summary) : List (String × Json) :=
  [("id", .ofNat s.id.toNat), ("name", .text s.name), ("size", .ofNat s.size),
    ("external_properties", .ofNat s.properties), ("external_functions", .ofNat s.functions)]

/-- A summary as JSON. -/
def toJson (s : Summary) : Json := .object s.members

/-- A line of a summary as JSON with a line for each member. -/
def memberLine (member : String × Json) : String :=
  "  " ++ (Json.text member.1).render ++ ": " ++ member.2.render

/-- A summary as JSON with a line for each member. -/
def toLines (s : Summary) : String :=
  "\x7b\n" ++ ",\n".intercalate (s.members.map memberLine) ++ "\n\x7d"

end Summary

/-! ### Orders -/

/-- What to compile, and where to. -/
structure CompileOrder where
  input : String
  output : String
  /-- The number of the program, if it has one of its own. -/
  id : Option UInt32
  /-- Where to write the tables, if that is wanted. -/
  manifest : Option String
  deriving DecidableEq, Repr

/-- The writes to make, in order, and the outcome once they are all made. -/
structure Production where
  writes : List (String × Bytes)
  outcome : Except WorkshopFault Summary

/-- The text of some bytes, if they are one. -/
def textOfBytes? (bytes : Bytes) : Option String := String.fromUTF8? ⟨bytes.toArray⟩

/-- The bytes of a text. -/
def bytesOfText (text : String) : Bytes := text.toUTF8.data.toList

namespace CompileOrder

/-- The name of the file with the counter. -/
def counterName : String := ".ossw-next-id"

/-- The path of the file with the counter. -/
def counterPath (order : CompileOrder) : String := Path.beside order.output counterName

/-- The document to compile. -/
def sourceText (order : CompileOrder) (source : Except DiskFault Bytes) :
    Except WorkshopFault String :=
  match source with
  | .ok bytes =>
    match textOfBytes? bytes with
    | some text => .ok text
    | none => .error (.unreadable order.input)
  | .error _ => .error (.unreadable order.input)

/-- The next number, as a counter file says.  A counter that is missing starts at
one. -/
def nextId (path : String) (counter : Except DiskFault Bytes) : Except WorkshopFault UInt32 :=
  match counter with
  | .ok bytes =>
    match textOfBytes? bytes with
    | some text =>
      match Text.unsigned32? (Text.trim text.toList) with
      | some next => .ok next
      | none => .error (.malformedCounter path)
    | none => .error (.unreadable path)
  | .error .missing => .ok 1
  | .error .unusable => .error (.unreadable path)

/-- The contents of a counter file. -/
def counterText (next : Nat) : String := s!"{next}\n"

/-- The compiled watch set of an order, from what its two files hold. -/
def bundle (order : CompileOrder) (source counter : Except DiskFault Bytes) :
    Except WorkshopFault Bundle := do
  let text ← order.sourceText source
  let first ← match order.id with
    | some _ => pure 1
    | none => nextId order.counterPath counter
  match (Compiler.compile ⟨first, none⟩ text order.id).1 with
  | .ok bundle => pure bundle
  | .error refusal => .error (.notCompiled order.input refusal)

/-- The write of the tables, if it is wanted. -/
def manifestWrite (order : CompileOrder) (bundle : Bundle) : List (String × Bytes) :=
  (order.manifest.map fun path => (path, bytesOfText bundle.toText)).toList

/-- The writes for a compiled watch set.  The counter goes on before the tables
are written; with the last number it cannot, after the program was written. -/
def produce (order : CompileOrder) (bundle : Bundle) : Production :=
  let program := (order.output, bundle.binary)
  let tables := order.manifestWrite bundle
  match order.id with
  | some _ => ⟨program :: tables, .ok (.of bundle)⟩
  | none =>
    let next := bundle.id.toNat + 1
    if next < UInt32.size then
      ⟨program :: (order.counterPath, bytesOfText (counterText next)) :: tables, .ok (.of bundle)⟩
    else ⟨[program], .error .exhausted⟩

/-- The plan of an order, from what its two files hold. -/
def plan (order : CompileOrder) (source counter : Except DiskFault Bytes) : Production :=
  match order.bundle source counter with
  | .ok bundle => order.produce bundle
  | .error fault => ⟨[], .error fault⟩

end CompileOrder

/-! ### Carrying orders out -/

namespace Disk

/-- Makes writes one after the other, until one fails. -/
def writeAll (disk : Disk) : List (String × Bytes) → Except WorkshopFault Unit × Disk
  | [] => (.ok (), disk)
  | (path, data) :: rest =>
    match disk.write path data with
    | .ok disk => disk.writeAll rest
    | .error _ => (.error (.unwritable path), disk)

/-- Makes the writes of a plan. -/
def carryOut (disk : Disk) (production : Production) : Except WorkshopFault Summary × Disk :=
  match disk.writeAll production.writes with
  | (.ok (), disk) => (production.outcome, disk)
  | (.error fault, disk) => (.error fault, disk)

/-- An order carried out on a disk. -/
def compile (disk : Disk) (order : CompileOrder) : Except WorkshopFault Summary × Disk :=
  disk.carryOut (order.plan (disk.read order.input) (disk.read order.counterPath))

end Disk

end Timepiece
