/-!
# Waiting for an answer

Before something is written that the watch answers, a slot is armed; the answer
is then handed to whoever armed it last.  Everyone who arms the slot gets a
ticket of his own, by which he asks for his answer.  An answer that nobody is
armed for is lost.

## Main definitions

* `Rendezvous` — the slot and the answers that were not asked for yet.
* `Rendezvous.arm`, `Rendezvous.disarm`, `Rendezvous.fulfill` — arming the slot
  and handing an answer to it.
* `Rendezvous.look` — what there is for a ticket.
* `Rendezvous.await?` — the end of waiting for a ticket.
-/

namespace Timepiece

/-- The ticket that a slot is armed for. -/
structure ArmedSlot where
  ticket : Nat
  /-- Whether the answer would still be taken. -/
  listening : Bool
  deriving DecidableEq, Repr

/-- A slot for one answer at a time. -/
structure Rendezvous (α : Type) where
  /-- The next ticket. -/
  next : Nat
  slot : Option ArmedSlot
  /-- The answers that were handed over but not asked for yet. -/
  letters : List (Nat × α)
  deriving DecidableEq, Repr

/-- What there is for a ticket. -/
inductive Mail (α : Type) where
  /-- The answer. -/
  | here (value : α)
  /-- No answer will come. -/
  | lost
  /-- The answer may still come. -/
  | coming
  deriving DecidableEq, Repr

namespace Rendezvous

variable {α : Type}

/-- A slot that was never armed. -/
def empty : Rendezvous α := ⟨0, none, []⟩

/-- Arms the slot, in place of whoever armed it before. -/
def arm (r : Rendezvous α) : Nat × Rendezvous α :=
  (r.next, { r with next := r.next + 1, slot := some ⟨r.next, true⟩ })

/-- Whether the slot is armed. -/
def isArmed (r : Rendezvous α) : Bool := r.slot.isSome

/-- Takes the arming back. -/
def disarm (r : Rendezvous α) : Rendezvous α := { r with slot := none }

/-- Hands an answer to the slot.  It is delivered if the slot is armed and the
answer would still be taken; the slot is not armed afterwards. -/
def fulfill (r : Rendezvous α) (value : α) : Bool × Rendezvous α :=
  match r.slot with
  | none => (false, r)
  | some ⟨ticket, true⟩ => (true, { r with slot := none, letters := (ticket, value) :: r.letters })
  | some ⟨_, false⟩ => (false, r.disarm)

/-- What there is for a ticket. -/
def look (r : Rendezvous α) (ticket : Nat) : Mail α :=
  match r.letters.lookup ticket with
  | some value => .here value
  | none => if r.slot.any (·.ticket == ticket) then .coming else .lost

/-- The answer for a ticket is taken out, or will not be taken any more. -/
def drop (r : Rendezvous α) (ticket : Nat) : Rendezvous α :=
  { r with
    slot := r.slot.map fun slot => if slot.ticket = ticket then ⟨ticket, false⟩ else slot
    letters := r.letters.filter fun letter => letter.1 != ticket }

/-- The end of waiting for a ticket: with the answer, or without one if none will
come or if the time is up; nothing while the wait goes on.  A wait that ends
without an answer disarms the slot, whoever it is armed for. -/
def await? (r : Rendezvous α) (ticket : Nat) (timeUp : Bool) : Option (Option α × Rendezvous α) :=
  match r.look ticket with
  | .here value => some (some value, r.drop ticket)
  | .lost => some (none, (r.drop ticket).disarm)
  | .coming => if timeUp then some (none, (r.drop ticket).disarm) else none

end Rendezvous

end Timepiece
