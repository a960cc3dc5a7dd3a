import Timepiece.WatchSet.Container
import Timepiece.WatchSet.Refusal

/-!
# What can go wrong in the workshop

A fault names what was being done; behind it stands, as far as the workshop knows
it, why that failed.

## Main definitions

* `WorkshopFault` — the faults, and `WorkshopFault.message`, what was being done.
* `WorkshopFault.causes` — why it failed, the nearest cause first.
-/

namespace Timepiece

/-- What can go wrong in the workshop. -/
inductive WorkshopFault where
  | unreadable (path : String)
  | unwritable (path : String)
  | malformedCounter (path : String)
  | notCompiled (path : String) (refusal : Refusal)
  /-- There is no next program number. -/
  | exhausted
  | notProgram (defect : Container.Defect)
  | malformedProgram (defect : Container.Defect)

namespace WorkshopFault

/-- What was being done. -/
def message : WorkshopFault → String
  | unreadable path => s!"failed to read {path}"
  | unwritable path => s!"failed to write {path}"
  | malformedCounter path => s!"malformed id counter {path}"
  | notCompiled path _ => s!"failed to compile {path}"
  | exhausted => "program ids are exhausted"
  | notProgram _ => "not a watch set binary"
  | malformedProgram _ => "malformed watch set binary"

/-- Why it failed, the nearest cause first; a cause that has no wording of its own
is `none`. -/
def causes : WorkshopFault → List (Option String)
  | notCompiled _ (.unreadable fault) => [some (Refusal.unreadable fault).message, fault.cause?]
  | notCompiled _ refusal => [some refusal.message]
  | notProgram defect => [some defect.message]
  | malformedProgram defect => [some defect.message]
  | _ => []

end WorkshopFault

end Timepiece
