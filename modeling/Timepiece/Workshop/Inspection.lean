import Timepiece.Text.Columns
import Timepiece.Workshop.Fault

/-!
# Inspecting programs

What can be told of a program without running it, as text.

## Main definitions

* `Inspection` — the header, the size and the sections of a program.
* `Inspection.of` — the inspection of a program.
* `Inspection.text` — what is shown of it.
-/

namespace Timepiece

/-- What can be told of a program without running it. -/
structure Inspection where
  header : Container.Header
  size : Nat
  sections : List Container.Section
  deriving DecidableEq, Repr

namespace Inspection

/-- The inspection of a program. -/
def of (binary : Bytes) : Except WorkshopFault Inspection :=
  match Container.header binary, Container.sections binary with
  | .error defect, _ => .error (.notProgram defect)
  | .ok _, .error defect => .error (.malformedProgram defect)
  | .ok header, .ok sections => .ok ⟨header, binary.length, sections⟩

/-- The version of the format, as it is shown. -/
def version (inspection : Inspection) : String :=
  let version := inspection.header.version.toNat
  s!"{version / 256}.{version % 256}"

/-- The line of a section. -/
def sectionLine (s : Container.Section) : String :=
  let name := Text.padRight 20 s.name
  let offset := Text.padLeft 5 (toString s.offset)
  let length := Text.padLeft 5 (toString s.length)
  s!"  section {Container.hexMarked s.id} {name} offset {offset}, {length} bytes\n"

/-- What is shown of a program. -/
def text (inspection : Inspection) : String :=
  s!"watch set {inspection.header.id.toNat}\n" ++
    s!"  format:  {inspection.version}\n" ++
    s!"  size:    {inspection.size} bytes\n" ++
    String.join (inspection.sections.map sectionLine)

end Inspection

end Timepiece
