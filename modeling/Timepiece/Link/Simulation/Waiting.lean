import Timepiece.Link.Agenda
import Timepiece.Link.Rendezvous

/-!
# Waiting in simulated time

A slot for answers, with answers that are handed to it at given moments.  Time
passes only while someone waits, and then from one of these moments to the next.

## Main definitions

* `SimulatedSlot` — the slot, the present moment, and the answers to come.
* `SimulatedSlot.settle` — hands over what is due.
* `SimulatedSlot.wait` — waits for the answer for a ticket.
-/

namespace Timepiece

/-- A slot in simulated time. -/
structure SimulatedSlot (α : Type) where
  slot : Rendezvous α
  now : Nat
  /-- The answers to come. -/
  coming : Agenda α

namespace SimulatedSlot

variable {α : Type}

/-- A slot that was never armed. -/
def empty : SimulatedSlot α := ⟨.empty, 0, []⟩

/-- Has an answer handed over some time later. -/
def schedule (s : SimulatedSlot α) (ms : Nat) (value : α) : SimulatedSlot α :=
  { s with coming := s.coming.add (endOfWait s.now ms) value }

/-- Hands over the answers that are due. -/
def settleSlot (now : Nat) (slot : Rendezvous α) : Agenda α → Rendezvous α × Agenda α
  | [] => (slot, [])
  | (due, value) :: rest =>
    if due ≤ now then settleSlot now (slot.fulfill value).2 rest else (slot, (due, value) :: rest)

/-- Hands over what is due. -/
def settle (s : SimulatedSlot α) : SimulatedSlot α :=
  let (slot, coming) := settleSlot s.now s.slot s.coming
  { s with slot, coming }

/-- Waits for the answer for a ticket, handing over one answer after the other,
until it is there or the deadline has come. -/
def waitSlot (ticket deadline now : Nat) (slot : Rendezvous α) :
    Agenda α → Option α × SimulatedSlot α
  | [] =>
    match slot.await? ticket (deadline ≤ now) with
    | some (answer, slot) => (answer, ⟨slot, now, []⟩)
    | none =>
      let (answer, slot) := (slot.await? ticket true).getD (none, slot)
      (answer, ⟨slot, deadline, []⟩)
  | (due, value) :: rest =>
    match slot.await? ticket (deadline ≤ now) with
    | some (answer, slot) => (answer, ⟨slot, now, (due, value) :: rest⟩)
    | none =>
      if due < deadline then waitSlot ticket deadline (max now due) (slot.fulfill value).2 rest
      else
        let (answer, slot) := (slot.await? ticket true).getD (none, slot)
        (answer, ⟨slot, deadline, (due, value) :: rest⟩)

/-- Waits for the answer for a ticket, and then hands over what is due. -/
def wait (s : SimulatedSlot α) (ticket ms : Nat) : Option α × SimulatedSlot α :=
  let (answer, s) := waitSlot ticket (endOfWait s.now ms) s.now s.slot s.coming
  (answer, s.settle)

end SimulatedSlot

end Timepiece
