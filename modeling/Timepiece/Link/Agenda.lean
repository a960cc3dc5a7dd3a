/-!
# What is due when

Moments are counted in milliseconds.  Things are to happen at given moments; of
those that are due the earliest comes first, and of several at one moment the one
that was entered first.

## Main definitions

* `endOfWait` — the moment at which a wait ends.
* `Agenda` — what is to happen.
* `Agenda.add`, `Agenda.earliest?`, `Agenda.takeDue?` — entering and taking.
-/

namespace Timepiece

/-- The longest wait: thirty years of 365 days. -/
def longestWait : Nat := 946080000000

/-- The moment at which a wait that starts now ends.  A wait that would be longer
than the longest one is cut to it. -/
def endOfWait (now ms : Nat) : Nat := now + min ms longestWait

/-- Things that are to happen, in the order of their moments. -/
abbrev Agenda (α : Type) := List (Nat × α)

namespace Agenda

variable {α : Type}

/-- Enters something, after what is entered for the same moment. -/
def add (due : Nat) (thing : α) : Agenda α → Agenda α
  | [] => [(due, thing)]
  | (first, other) :: rest =>
    if due < first then (due, thing) :: (first, other) :: rest
    else (first, other) :: add due thing rest

/-- The moment of the earliest thing. -/
def earliest? (agenda : Agenda α) : Option Nat := agenda.head?.map Prod.fst

/-- The earliest thing, if it is due, and what remains. -/
def takeDue? (now : Nat) : Agenda α → Option (α × Agenda α)
  | [] => none
  | (due, thing) :: rest => if due ≤ now then some (thing, rest) else none

end Agenda

/-- The earlier of two moments, either of which may be missing. -/
def earlier? : Option Nat → Option Nat → Option Nat
  | some a, some b => some (min a b)
  | some a, none => some a
  | none, b => b

end Timepiece
