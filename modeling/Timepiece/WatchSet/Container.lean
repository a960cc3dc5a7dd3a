import Timepiece.WatchSet.Encoding

/-!
# Reading programs

What can be told of a program without running it: its header, and the sections
that follow.

## Main definitions

* `Container.Header`, `Container.header` — the version and the number.
* `Container.Section`, `Container.sections` — what follows the header.
-/

namespace Timepiece.Container

/-- Why bytes are no program. -/
inductive Defect where
  | truncated (size : Nat)
  | wrongMagic (first second : UInt8)
  | wrongVersion (major minor : UInt8)
  | unterminated
  | sectionTruncated (id : UInt8)
  | sectionOverrun (id : UInt8)
  deriving DecidableEq, Repr

/-- A byte in hexadecimal, marked as such. -/
def hexMarked (byte : UInt8) : String := "0x" ++ hexByte byte

/-- The wording of a defect. -/
def Defect.message : Defect → String
  | truncated size => s!"Watch set is truncated: {size} bytes"
  | wrongMagic first second => s!"Invalid magic number: {hexByte first} {hexByte second}"
  | wrongVersion major minor => s!"Unsupported format version: {major.toNat}.{minor.toNat}"
  | unterminated => "Missing end of data marker"
  | sectionTruncated id => s!"Section {hexMarked id} is truncated"
  | sectionOverrun id => s!"Section {hexMarked id} overruns the binary"

/-! ### Headers -/

/-- What stands at the start of a program. -/
structure Header where
  version : UInt16
  id : UInt32
  deriving DecidableEq, Repr

/-- The length of a header. -/
def headerLength : Nat := 8

/-- The header of a program and what follows it. -/
def splitHeader : Bytes → Except Defect (Header × Bytes)
  | a :: b :: c :: d :: i :: j :: k :: l :: rest =>
    if [a, b] ≠ Program.magic then .error (.wrongMagic a b)
    else if [c, d] ≠ Program.formatVersion then .error (.wrongVersion c d)
    else .ok (⟨UInt16.ofNat (ofBigEndian [c, d]), UInt32.ofNat (ofBigEndian [i, j, k, l])⟩, rest)
  | short => .error (.truncated short.length)

/-- The header of a program. -/
def header (binary : Bytes) : Except Defect Header := (splitHeader binary).map Prod.fst

/-! ### Sections -/

/-- A section: its kind, and where its contents stand. -/
structure Section where
  id : UInt8
  offset : Nat
  length : Nat
  deriving DecidableEq, Repr

/-- The name of the kind of a section. -/
def Section.name (s : Section) : String :=
  if s.id = 0x01 then "screens"
  else if s.id = 0x02 then "external properties"
  else if s.id = 0x03 then "resources"
  else "unknown"

/-- Whether a list has at least a given length. -/
def reaches {α : Type} : (length : Nat) → List α → Bool
  | 0, _ => true
  | _ + 1, [] => false
  | length + 1, _ :: rest => reaches length rest

/-- The sections from a given place on, up to the mark that ends them, after those
already found, which are kept in reverse. -/
def sectionsFrom (start : Nat) (found : List Section) (bytes : Bytes) :
    Except Defect (List Section) :=
  match bytes with
  | [] => .error .unterminated
  | id :: rest =>
    if id = Program.endMark then .ok found.reverse
    else match rest with
      | a :: b :: body =>
        let length := ofBigEndian [a, b]
        if reaches length body then
          sectionsFrom (start + 3 + length) (⟨id, start + 3, length⟩ :: found) (body.drop length)
        else .error (.sectionOverrun id)
      | _ => .error (.sectionTruncated id)
termination_by bytes.length
decreasing_by
  simp only [List.length_drop, List.length_cons]
  omega

/-- The sections of a program. -/
def sections (binary : Bytes) : Except Defect (List Section) :=
  match splitHeader binary with
  | .ok (_, rest) => sectionsFrom headerLength [] rest
  | .error defect => .error defect

end Timepiece.Container
