import Mathlib
import Timepiece.Link.Rendezvous

/-!
# Tickets of a slot

The tickets of a slot are given out in order, so that a ticket that is given out now has
no answer yet: whatever was handed over before was for an older one.

## Main definitions

* `Rendezvous.Reachable` — the states of a slot.
* `Rendezvous.Sound` — only tickets that were given out are armed or answered.

## Main results

* `Rendezvous.Reachable.sound` — **the states of a slot are sound**.
* `Rendezvous.Sound.lookup_next` — a new ticket has no answer.
* `Rendezvous.await_cases` — how a wait ends.
-/

namespace Timepiece

namespace Rendezvous

variable {α : Type} {r r' : Rendezvous α}

/-- The states that a slot can come to. -/
inductive Reachable : Rendezvous α → Prop
  | empty : Reachable empty
  | arm {r : Rendezvous α} : Reachable r → Reachable r.arm.2
  | disarm {r : Rendezvous α} : Reachable r → Reachable r.disarm
  | fulfill {r : Rendezvous α} {value : α} : Reachable r → Reachable (r.fulfill value).2
  | drop {r : Rendezvous α} {ticket : Nat} : Reachable r → Reachable (r.drop ticket)

/-- Only tickets that were given out are armed or answered. -/
structure Sound (r : Rendezvous α) : Prop where
  slot : ∀ slot, r.slot = some slot → slot.ticket < r.next
  letters : ∀ letter ∈ r.letters, letter.1 < r.next

namespace Sound

theorem empty : Sound (.empty : Rendezvous α) where
  slot := fun _ h => nomatch h
  letters := fun _ h => absurd h List.not_mem_nil

theorem arm (h : r.Sound) : r.arm.2.Sound where
  slot := by
    intro slot hslot
    obtain rfl := Option.some.inj hslot
    exact Nat.lt_succ_self r.next
  letters := fun letter hl => (h.letters letter hl).trans (Nat.lt_succ_self r.next)

theorem disarm (h : r.Sound) : r.disarm.Sound where
  slot := fun _ h => nomatch h
  letters := h.letters

theorem fulfill (h : r.Sound) (value : α) : (r.fulfill value).2.Sound := by
  unfold Rendezvous.fulfill
  split
  · exact h
  · next ticket hslot =>
    refine ⟨?_, List.forall_mem_cons.2 ⟨h.slot _ hslot, h.letters⟩⟩
    exact fun _ h => nomatch h
  · exact h.disarm

theorem drop (h : r.Sound) (ticket : Nat) : (r.drop ticket).Sound where
  slot := by
    intro slot hslot
    -- the slot keeps its ticket, whether it is the dropped one or not
    obtain ⟨old, hold, hslot⟩ := Option.map_eq_some_iff.1 hslot
    have hlt := h.slot old hold
    split at hslot
    · next hticket =>
      obtain rfl := hslot
      exact hticket ▸ hlt
    · obtain rfl := hslot
      exact hlt
  letters := fun letter hl => h.letters letter (List.mem_of_mem_filter hl)

/-- A new ticket has no answer. -/
theorem lookup_next (h : r.Sound) : r.letters.lookup r.next = none := by
  refine List.lookup_eq_none_iff.2 fun letter hl => ?_
  have := h.letters letter hl
  -- every letter is for an older ticket
  simp only [bne_iff_ne, ne_eq]
  omega

end Sound

/-- **The states of a slot are sound.** -/
theorem Reachable.sound (h : r.Reachable) : r.Sound := by
  induction h with
  | empty => exact .empty
  | arm _ ih => exact ih.arm
  | disarm _ ih => exact ih.disarm
  | fulfill _ ih => exact ih.fulfill _
  | drop _ ih => exact ih.drop _

/-! ### Waiting -/

/-- A wait ends with the answer, or without one if none will come or the time is up. -/
theorem await_cases {ticket : Nat} {timeUp : Bool} {answer : Option α}
    (h : r.await? ticket timeUp = some (answer, r')) :
    (∃ value, answer = some value ∧ r.look ticket = .here value ∧ r' = r.drop ticket) ∨
      (answer = none ∧ (r.look ticket = .lost ∨ r.look ticket = .coming ∧ timeUp = true) ∧
        r' = (r.drop ticket).disarm) := by
  -- the answer is here, will never come, or may still come
  unfold await? at h
  split at h
  · next value hlook =>
    obtain ⟨rfl, rfl⟩ := Prod.mk.inj (Option.some.inj h)
    exact .inl ⟨value, rfl, hlook, rfl⟩
  · next hlook =>
    obtain ⟨rfl, rfl⟩ := Prod.mk.inj (Option.some.inj h)
    exact .inr ⟨rfl, .inl hlook, rfl⟩
  · next hlook =>
    split at h
    · next htime =>
      obtain ⟨rfl, rfl⟩ := Prod.mk.inj (Option.some.inj h)
      exact .inr ⟨rfl, .inr ⟨hlook, htime⟩, rfl⟩
    · exact nomatch h

/-- The end of a wait is one of the states that a slot can come to. -/
theorem Reachable.await (h : r.Reachable) {ticket : Nat} {timeUp : Bool} {answer : Option α}
    (hawait : r.await? ticket timeUp = some (answer, r')) : r'.Reachable := by
  obtain ⟨_, -, -, rfl⟩ | ⟨-, -, rfl⟩ := await_cases hawait
  · exact h.drop
  · exact h.drop.disarm

/-- A wait that ends without an answer leaves the slot unarmed. -/
theorem slot_of_await_none {ticket : Nat} {timeUp : Bool}
    (h : r.await? ticket timeUp = some (none, r')) : r'.slot = none := by
  obtain ⟨_, hanswer, -, -⟩ | ⟨-, -, rfl⟩ := await_cases h
  · exact nomatch hanswer
  · rfl

end Rendezvous

end Timepiece
